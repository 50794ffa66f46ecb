import KeyBank.Foundation.Retry
import KeyBank.Server.Refinement
import Mathlib.Data.Set.List

/-!
# The collision-safe store

`internal/store` has a Redis store of its own, whose `Save` gives up rather than overwrite a key: it
draws an id and stores the record with `SETNX`, up to three times. Here a call is not one atomic
step. The random source and every command to Redis are steps of their own, and the steps of other
calls come in between (`clients`).

What `Save` calls has one of few shapes (`save_calls`); all of its calls leave Redis as it is,
except for a `SETNX` that is answered with `true`, and this one can only be the last.
-/

namespace KeyBank

open Interleaving

namespace RedisKeyStore

/-! ### The source -/

/-- What a call of the store calls in turn: `rand.Read`, and two commands of Redis. -/
inductive Cmd where
  | rand
  | setNX (key value : GoString) (expiration : Duration)
  | getDel (key : GoString)
  deriving DecidableEq

@[reducible] def Cmd.Reply : Cmd → Type
  | .rand => Option (Vector UInt8 16)
  | .setNX _ _ _ => Except Redis.Error Bool
  | .getDel _ => Except Redis.Error GoString

/-- The commands with their replies. -/
abbrev Api : Interface := ⟨Cmd, Cmd.Reply⟩

/-- The random source and Redis. -/
def object : Object Api Env Redis.DB where
  exec env
    | .rand, db => (env.draw, db)
    | .setNX key value expiration, db => Redis.setNX env.up env.now key value expiration db
    | .getDel key, db => Redis.getDel env.up env.now key db

/-- The errors `Save` passes on, and its own. -/
inductive SaveError where
  | store (e : StoreError)
  | new (text : GoString)
  deriving DecidableEq

/-- The error after three ids that were taken. -/
def failedToAllocate : SaveError := .new (lit "store: failed to allocate unique id")

/-- One round of the loop in `Save`. It ends the loop unless the id is taken. -/
def saveAttempt (payload : GoString) (ttl : Duration) :
    Prog Api (Option (Except SaveError GoString)) :=
  .call .rand fun draw =>
    match randomID draw with
    | none => .done (some (.error (.store .random)))
    | some id =>
      .call (.setNX id payload ttl) fun
        | .error e => .done (some (.error (.store (.redis e))))
        | .ok true => .done (some (.ok id))
        | .ok false => .done none

/-- `RedisKeyStore.Save`. -/
def save (codec : RecordCodec) (rec : Record) (ttl : Duration) :
    Prog Api (Except SaveError GoString) :=
  match codec.marshal rec with
  | none => .done (.error (.store .marshal))
  | some payload => Prog.retry (saveAttempt payload ttl) (.error failedToAllocate) 3

/-- `RedisKeyStore.Load` after `GETDEL`. -/
def loaded (codec : RecordCodec) : Except Redis.Error GoString → Except StoreError (Option Record)
  | .error .nil => .ok none
  | .error e => .error (.redis e)
  | .ok val =>
    match codec.unmarshal val with
    | none => .error .unmarshal
    | some rec => .ok (some rec)

/-- `RedisKeyStore.Load`. -/
def load (codec : RecordCodec) (id : GoString) : Prog Api (Except StoreError (Option Record)) :=
  .call (.getDel id) fun reply => .done (loaded codec reply)

/-- One call of the store. -/
inductive Call where
  | save (rec : Record) (ttl : Duration)
  | load (id : GoString)
  deriving DecidableEq

/-- What a call returns. -/
inductive Result where
  | saved (r : Except SaveError GoString)
  | loaded (r : Except StoreError (Option Record))

/-- What a call does. -/
def Call.prog (codec : RecordCodec) : Call → Prog Api Result
  | .save rec ttl => RedisKeyStore.save codec rec ttl >>= fun r => .done (.saved r)
  | .load id => RedisKeyStore.load codec id >>= fun r => .done (.loaded r)

/-- Any number of concurrent calls. -/
def clients (codec : RecordCodec) (calls : ℕ → Call) (db : Redis.DB) : Pool Api Redis.DB Result :=
  ⟨db, fun i => (calls i).prog codec⟩

/-- One step of a call. -/
abbrev StoreEvent : Type := Event Api Env

/-! ### What is expected of `Save` -/

/-- A `SETNX`: its id, whether that was live just before, and the answer. -/
structure Attempt where
  id : GoString
  live : Bool
  answer : Except Redis.Error Bool

def attemptOf (i : ℕ) (db : Redis.DB) : StoreEvent → Option Attempt
  | ⟨j, env, .setNX id _ _, answer⟩ =>
    if j = i then some ⟨id, (db.live env.now id).isSome, answer⟩ else none
  | _ => none

/-- The attempts of one call along a trace. -/
def attempts (i : ℕ) : Redis.DB → List StoreEvent → List Attempt
  | _, [] => []
  | db, ev :: t => (attemptOf i db ev).toList ++ attempts i (object.exec ev.env ev.cmd db).2 t

/-- The id a call of the random source yields. -/
def drawn : (Σ c : Cmd, c.Reply) → Option GoString
  | ⟨.rand, draw⟩ => randomID draw
  | _ => none

/-- No step of the call changes anything. -/
def Idle (i : ℕ) : Redis.DB → List StoreEvent → Prop :=
  object.Always fun db ev => ev.thread = i → (object.exec ev.env ev.cmd db).2 = db

/-- The step `ev` of the call puts an entry under an id that was free, and no other step of the call
changes anything. -/
structure Stored (i : ℕ) (id : GoString) (entry : TTLEntry GoString) (db : Redis.DB)
    (pre : List StoreEvent) (ev : StoreEvent) (post : List StoreEvent) : Prop where
  thread : ev.thread = i
  free : (object.replay db pre).live ev.env.now id = none
  stored : object.replay db (pre ++ [ev]) = (object.replay db pre).set id entry
  before : Idle i db pre
  after : Idle i (object.replay db (pre ++ [ev])) post

/-- Of the events `post`, the first `Load` of `id` that Redis answers returns `rec`, if it comes
before the expiry. -/
def Found (calls : ℕ → Call) (id : GoString) (rec : Record) (expiry : Option ℤ)
    (post : List StoreEvent) (threads : ℕ → Prog Api Result) : Prop :=
  ∀ mid ev rest, post = mid ++ ev :: rest → calls ev.thread = .load id → ev.env.up = true →
    (∀ ev' ∈ mid, ev'.env.now ≤ ev.env.now ∧ (ev'.cmd = .getDel id → ev'.env.up = false)) →
    (∀ x, expiry = some x → ev.env.now ≤ x) →
      threads ev.thread = .done (.loaded (.ok (some rec)))

/-- What is expected of a `Save` that returned `result`. -/
structure CollisionSafe (codec : RecordCodec) (calls : ℕ → Call) (i : ℕ) (rec : Record)
    (ttl : Duration) (db : Redis.DB) (t : List StoreEvent) (threads : ℕ → Prog Api Result)
    (result : Except SaveError GoString) : Prop where
  /-- The attempts are made with the ids drawn. -/
  drawn : (attempts i db t).map Attempt.id = (callsOf i t).filterMap drawn
  saved : ∀ id, result = .ok id → ∃ payload pre ev post, codec.marshal rec = some payload ∧
    t = pre ++ ev :: post ∧ ev.cmd = .setNX id payload ttl ∧
      Stored i id ⟨payload, Redis.setExpiry ev.env.now ttl none⟩ db pre ev post ∧
        Found calls id rec (Redis.setExpiry ev.env.now ttl none) post threads
  failed : ∀ e, result = .error e → Idle i db t
  /-- Three ids drawn in a row were live, and Redis said so. -/
  exhausted : result = .error failedToAllocate ↔ (attempts i db t).length = 3 ∧
    ∀ a ∈ attempts i db t, a.live = true ∧ ∃ taken, a.answer = .ok taken

/-! ### What `Save` calls -/

section Calls

variable (payload : GoString) (ttl : Duration)

/-- The calls of an attempt whose id is taken. -/
def takenCalls (draw : Vector UInt8 16) : List (Σ c : Cmd, c.Reply) :=
  [⟨.rand, some draw⟩, ⟨.setNX (hexEncodeToString draw.toList) payload ttl, .ok false⟩]

/-- The calls of an attempt that ends the loop, and the result. -/
inductive Ending : List (Σ c : Cmd, c.Reply) → Except SaveError GoString → Prop where
  | random : Ending [⟨.rand, none⟩] (.error (.store .random))
  | redis (draw : Vector UInt8 16) (e : Redis.Error) :
      Ending [⟨.rand, some draw⟩, ⟨.setNX (hexEncodeToString draw.toList) payload ttl, .error e⟩]
        (.error (.store (.redis e)))
  | stored (draw : Vector UInt8 16) :
      Ending [⟨.rand, some draw⟩, ⟨.setNX (hexEncodeToString draw.toList) payload ttl, .ok true⟩]
        (.ok (hexEncodeToString draw.toList))

end Calls

variable {payload : GoString} {ttl : Duration} {l : List (Σ c : Cmd, c.Reply)}

/-- Everything a finished attempt can have called. -/
theorem saveAttempt_calls {r : Option (Except SaveError GoString)}
    (h : Prog.Path (saveAttempt payload ttl) l (.done r)) :
    (r = none ∧ ∃ draw, l = takenCalls payload ttl draw) ∨
      ∃ result, r = some result ∧ Ending payload ttl l result := by
  rcases Prog.path_call_iff.mp h with ⟨-, heq⟩ | ⟨draw, l', rfl, hdrawn⟩
  · exact absurd heq nofun
  rcases draw with _ | draw
  · obtain ⟨rfl, heq⟩ := Prog.path_done_iff.mp hdrawn
    exact .inr ⟨_, Prog.done.inj heq, .random⟩
  rcases Prog.path_call_iff.mp hdrawn with ⟨-, heq⟩ | ⟨answer, l', rfl, hanswered⟩
  · exact absurd heq nofun
  rcases answer with e | _ | _ <;> obtain ⟨rfl, heq⟩ := Prog.path_done_iff.mp hanswered
  · exact .inr ⟨_, Prog.done.inj heq, .redis draw e⟩
  · exact .inl ⟨Prog.done.inj heq, draw, rfl⟩
  · exact .inr ⟨_, Prog.done.inj heq, .stored draw⟩

/-- Everything a finished `Save` can have called. -/
theorem save_calls {codec : RecordCodec} {rec : Record} {result : Except SaveError GoString}
    (h : Prog.Path (save codec rec ttl) l (.done result)) :
    (codec.marshal rec = none ∧ l = [] ∧ result = .error (.store .marshal)) ∨
      ∃ payload, ∃ draws : List (Vector UInt8 16), codec.marshal rec = some payload ∧
        ((draws.length = 3 ∧ l = draws.flatMap (takenCalls payload ttl) ∧
            result = .error failedToAllocate) ∨
          draws.length < 3 ∧ ∃ last, l = draws.flatMap (takenCalls payload ttl) ++ last ∧
            Ending payload ttl last result) := by
  rw [save] at h
  split at h
  · next hmarshal =>
    obtain ⟨rfl, heq⟩ := Prog.path_done_iff.mp h
    exact .inl ⟨hmarshal, rfl, Prog.done.inj heq⟩
  · next payload hmarshal =>
    obtain ⟨ls, hls, hcase⟩ := Prog.path_retry_done h
    have hrange : ls ∈ Set.range (List.map (takenCalls payload ttl)) := by
      rw [Set.range_list_map]
      intro l' hl'
      rcases saveAttempt_calls (hls l' hl') with ⟨-, draw, rfl⟩ | ⟨_, heq, -⟩
      · exact ⟨draw, rfl⟩
      · exact absurd heq nofun
    obtain ⟨draws, rfl⟩ := hrange
    rw [List.length_map, ← List.flatMap_def] at hcase
    refine .inr ⟨payload, draws, hmarshal, ?_⟩
    rcases hcase with hcase | ⟨hlength, last, rfl, hlast⟩
    · exact .inl hcase
    · rcases saveAttempt_calls hlast with ⟨heq, -⟩ | ⟨_, heq, hending⟩
      · exact absurd heq nofun
      · obtain rfl := Option.some.inj heq
        exact .inr ⟨hlength, last, rfl, hending⟩

/-- The id and the answer of a `SETNX`. -/
def asked : (Σ c : Cmd, c.Reply) → Option (GoString × Except Redis.Error Bool)
  | ⟨.setNX id _ _, answer⟩ => some (id, answer)
  | _ => none

/-- An attempt asks once. -/
theorem countP_asked_saveAttempt {q : Prog Api (Option (Except SaveError GoString))}
    (h : Prog.Path (saveAttempt payload ttl) l q) : l.countP (fun c => (asked c).isSome) ≤ 1 := by
  rcases Prog.path_call_iff.mp h with ⟨rfl, -⟩ | ⟨draw, l', rfl, hdrawn⟩
  · exact Nat.zero_le 1
  rcases draw with _ | draw
  · obtain ⟨rfl, -⟩ := Prog.path_done_iff.mp hdrawn
    exact Nat.zero_le 1
  rcases Prog.path_call_iff.mp hdrawn with ⟨rfl, -⟩ | ⟨answer, l', rfl, hanswered⟩
  · exact Nat.zero_le 1
  rcases answer with e | _ | _ <;> obtain ⟨rfl, -⟩ := Prog.path_done_iff.mp hanswered <;>
    exact Nat.le_refl 1

/-- `Save` asks at most three times, whether or not it has returned. -/
theorem countP_asked_save {codec : RecordCodec} {rec : Record}
    {q : Prog Api (Except SaveError GoString)} (h : Prog.Path (save codec rec ttl) l q) :
    l.countP (fun c => (asked c).isSome) ≤ 3 := by
  rw [save] at h
  split at h
  · obtain ⟨rfl, -⟩ := Prog.path_done_iff.mp h
    exact Nat.zero_le 3
  · exact Prog.countP_le_of_path_retry (fun _ _ => countP_asked_saveAttempt) h

/-! ### The attempts along a trace -/

variable {i : ℕ} {db : Redis.DB} {t : List StoreEvent}

theorem map_attempts (i : ℕ) (db : Redis.DB) (t : List StoreEvent) :
    (attempts i db t).map (fun a => (a.id, a.answer)) = (callsOf i t).filterMap asked := by
  induction t generalizing db with
  | nil => rfl
  | cons ev t ih =>
    obtain ⟨j, env, c, reply⟩ := ev
    rw [attempts, List.map_append, ih]
    by_cases hj : j = i
    · rw [callsOf_cons_eq hj]
      cases c with
      | rand =>
        rw [List.filterMap_cons_none rfl]
        rfl
      | setNX id value expiration =>
        have hasked : asked ⟨.setNX id value expiration, reply⟩ = some (id, reply) := rfl
        rw [List.filterMap_cons_some hasked]
        simp [attemptOf, hj]
      | getDel id =>
        rw [List.filterMap_cons_none rfl]
        rfl
    · rw [callsOf_cons_ne hj]
      cases c <;> simp [attemptOf, hj]

/-- `SETNX` answers truthfully. -/
theorem live_of_mem_attempts (hlegal : object.Legal db t) :
    ∀ a ∈ attempts i db t, ∀ taken, a.answer = .ok taken → a.live = !taken := by
  induction t generalizing db with
  | nil => exact nofun
  | cons ev t ih =>
    obtain ⟨j, env, c, reply⟩ := ev
    intro a ha taken hanswer
    rw [attempts, List.mem_append, Option.mem_toList] at ha
    rcases ha with ha | ha
    · cases c with
      | rand => exact absurd ha nofun
      | getDel id => exact absurd ha nofun
      | setNX id value expiration =>
        rw [attemptOf] at ha
        split at ha
        · obtain rfl := Option.some.inj ha
          have hreply := hlegal.1
          simp only [object] at hreply
          rcases Redis.setNX_cases env.up env.now id value expiration db with
            ⟨e, h⟩ | ⟨hlive, h⟩ | ⟨hfree, h⟩ <;> rw [h] at hreply <;> subst hreply
          · exact absurd hanswer nofun
          · obtain rfl := Except.ok.inj hanswer
            exact hlive
          · obtain rfl := Except.ok.inj hanswer
            simp [hfree]
        · exact absurd ha nofun
    · exact ih hlegal.2 a ha taken hanswer

/-! ### The steps that change nothing -/

/-- A call after which Redis is as before. -/
def Quiet : (Σ c : Cmd, c.Reply) → Prop
  | ⟨.rand, _⟩ => True
  | ⟨.setNX _ _ _, answer⟩ => answer ≠ .ok true
  | ⟨.getDel _, _⟩ => False

/-- **Step lemma.** -/
theorem exec_of_quiet {ev : StoreEvent} (hreply : ev.reply = (object.exec ev.env ev.cmd db).1)
    (hquiet : Quiet ⟨ev.cmd, ev.reply⟩) : (object.exec ev.env ev.cmd db).2 = db := by
  obtain ⟨j, env, c, reply⟩ := ev
  cases c with
  | rand => rfl
  | getDel id => exact hquiet.elim
  | setNX id value expiration =>
    simp only [object] at hreply ⊢
    rcases Redis.setNX_cases env.up env.now id value expiration db with
      ⟨e, h⟩ | ⟨-, h⟩ | ⟨-, h⟩ <;> rw [h] at hreply ⊢
    exact absurd hreply hquiet

/-- **Run lemma.** -/
theorem idle_of_quiet (hlegal : object.Legal db t) (h : ∀ c ∈ callsOf i t, Quiet c) :
    Idle i db t := by
  induction t generalizing db with
  | nil => trivial
  | cons ev t ih =>
    by_cases hi : ev.thread = i
    · rw [callsOf_cons_eq hi, List.forall_mem_cons] at h
      exact ⟨fun _ => exec_of_quiet hlegal.1 h.1, ih hlegal.2 h.2⟩
    · rw [callsOf_cons_ne hi] at h
      exact ⟨fun heq => absurd heq hi, ih hlegal.2 h⟩

theorem quiet_of_mem_takenCalls {draws : List (Vector UInt8 16)} :
    ∀ c ∈ draws.flatMap (takenCalls payload ttl), Quiet c := by
  intro c hc
  obtain ⟨draw, -, hc⟩ := List.mem_flatMap.mp hc
  simp only [takenCalls, List.mem_cons, List.not_mem_nil, or_false] at hc
  rcases hc with rfl | rfl
  · trivial
  · exact nofun

variable {codec : RecordCodec} {rec : Record} {result : Except SaveError GoString}

/-- A `Save` that fails is quiet. -/
theorem quiet_of_failed {e : SaveError} (h : Prog.Path (save codec rec ttl) l (.done (.error e))) :
    ∀ c ∈ l, Quiet c := by
  rcases save_calls h with ⟨-, rfl, -⟩ | ⟨payload, draws, -, ⟨-, rfl, -⟩ | ⟨-, last, rfl, hlast⟩⟩
  · exact nofun
  · exact quiet_of_mem_takenCalls
  · refine List.forall_mem_append.mpr ⟨quiet_of_mem_takenCalls, ?_⟩
    cases hlast with
    | random => simp [Quiet]
    | redis draw e => simp [Quiet]

/-- A `Save` that returns an id is quiet until the last call, which stored the record. -/
theorem calls_of_saved {id : GoString} (h : Prog.Path (save codec rec ttl) l (.done (.ok id))) :
    ∃ payload l', codec.marshal rec = some payload ∧
      l = l' ++ [⟨.setNX id payload ttl, .ok true⟩] ∧ ∀ c ∈ l', Quiet c := by
  rcases save_calls h with
    ⟨-, -, heq⟩ | ⟨payload, draws, hmarshal, ⟨-, -, heq⟩ | ⟨-, last, rfl, hlast⟩⟩
  · exact absurd heq nofun
  · exact absurd heq nofun
  · cases hlast with
    | stored draw =>
      refine ⟨payload, draws.flatMap (takenCalls payload ttl) ++ [⟨.rand, some draw⟩], hmarshal,
        by rw [List.append_assoc]; rfl, ?_⟩
      exact List.forall_mem_append.mpr ⟨quiet_of_mem_takenCalls, by simp [Quiet]⟩

/-! ### The ids -/

theorem filterMap_asked_takenCalls (draws : List (Vector UInt8 16)) :
    (draws.flatMap (takenCalls payload ttl)).filterMap asked =
      draws.map fun draw => (hexEncodeToString draw.toList, .ok false) := by
  induction draws with
  | nil => rfl
  | cons draw draws ih =>
    rw [List.flatMap_cons, List.filterMap_append, ih]
    rfl

theorem filterMap_drawn_takenCalls (draws : List (Vector UInt8 16)) :
    (draws.flatMap (takenCalls payload ttl)).filterMap drawn =
      draws.map fun draw => hexEncodeToString draw.toList := by
  induction draws with
  | nil => rfl
  | cons draw draws ih =>
    rw [List.flatMap_cons, List.filterMap_append, ih]
    rfl

/-- A finished `Save` asks for every id it draws. -/
theorem map_asked_of_save (h : Prog.Path (save codec rec ttl) l (.done result)) :
    (l.filterMap asked).map Prod.fst = l.filterMap drawn := by
  have htaken (payload : GoString) (draws : List (Vector UInt8 16)) :
      ((draws.flatMap (takenCalls payload ttl)).filterMap asked).map Prod.fst =
        (draws.flatMap (takenCalls payload ttl)).filterMap drawn := by
    rw [filterMap_asked_takenCalls, filterMap_drawn_takenCalls, List.map_map]
    rfl
  rcases save_calls h with ⟨-, rfl, -⟩ | ⟨payload, draws, -, ⟨-, rfl, -⟩ | ⟨-, last, rfl, hlast⟩⟩
  · rfl
  · exact htaken payload draws
  · rw [List.filterMap_append, List.filterMap_append, List.map_append, htaken]
    cases hlast <;> rfl

/-- What a finished `Save` was told when it gave up: three times that the id is taken. -/
theorem asked_of_save (h : Prog.Path (save codec rec ttl) l (.done result)) :
    result = .error failedToAllocate ↔
      (l.filterMap asked).length = 3 ∧ ∀ c ∈ l.filterMap asked, c.2 = .ok false := by
  have hnew (e : StoreError) : Except.error (SaveError.store e) ≠
    (Except.error failedToAllocate : Except SaveError GoString) := nofun
  rcases save_calls h with
    ⟨-, rfl, rfl⟩ | ⟨payload, draws, -, ⟨hlength, rfl, rfl⟩ | ⟨hlength, last, rfl, hlast⟩⟩
  · exact iff_of_false (hnew _) fun h => absurd h.1 nofun
  · rw [filterMap_asked_takenCalls]
    exact iff_of_true rfl ⟨by simpa using hlength, by simp⟩
  · rw [List.filterMap_append, filterMap_asked_takenCalls, List.length_append, List.length_map]
    cases hlast with
    | random => exact iff_of_false (hnew _) fun h => absurd h.1 (Nat.ne_of_lt hlength)
    | redis draw e =>
      exact iff_of_false (hnew _) fun h => absurd (h.2 (hexEncodeToString draw.toList, .error e)
        (List.mem_append_right _ (List.mem_singleton.mpr rfl))) nofun
    | stored draw =>
      exact iff_of_false nofun fun h => absurd (h.2 (hexEncodeToString draw.toList, .ok true)
        (List.mem_append_right _ (List.mem_singleton.mpr rfl))) nofun

/-- In the trace: three attempts with ids that were live. -/
theorem exhausted_iff (hlegal : object.Legal db t)
    (h : Prog.Path (save codec rec ttl) (callsOf i t) (.done result)) :
    result = .error failedToAllocate ↔ (attempts i db t).length = 3 ∧
      ∀ a ∈ attempts i db t, a.live = true ∧ ∃ taken, a.answer = .ok taken := by
  rw [asked_of_save h, ← map_attempts i db t, List.length_map, List.forall_mem_map]
  refine and_congr_right fun _ => forall₂_congr fun a ha => ?_
  have hlive := live_of_mem_attempts hlegal a ha
  constructor
  · intro hanswer
    exact ⟨hlive false hanswer, false, hanswer⟩
  · rintro ⟨halive, taken, hanswer⟩
    have htaken := hlive taken hanswer
    rw [halive] at htaken
    cases taken with
    | false => exact hanswer
    | true => exact absurd htaken nofun

/-! ### The record that was stored -/

/-- A `SETNX` that is answered with `true` finds its key free and sets it. -/
theorem setNX_of_true {env : Env} {id value : GoString}
    (h : (object.exec env (.setNX id value ttl) db).1 = .ok true) :
    db.live env.now id = none ∧ (object.exec env (.setNX id value ttl) db).2 =
      TTLMap.set db id ⟨value, Redis.setExpiry env.now ttl none⟩ := by
  simp only [object] at h ⊢
  rcases Redis.setNX_cases env.up env.now id value ttl db with ⟨e, heq⟩ | ⟨-, heq⟩ | ⟨hfree, heq⟩ <;>
    rw [heq] at h ⊢
  · exact absurd h nofun
  · exact absurd h nofun
  · exact ⟨hfree, rfl⟩

variable {id : GoString} {entry : TTLEntry GoString} {now : ℤ}

/-- **Step lemma.** An entry stays until it expires or is loaded. -/
theorem exec_of_held {ev : StoreEvent} (hheld : db id = some entry)
    (hvisible : entry.visible ev.env.now = true) (hload : ev.cmd = .getDel id → ev.env.up = false) :
    (object.exec ev.env ev.cmd db).2 id = some entry := by
  obtain ⟨j, env, c, reply⟩ := ev
  have hlive : db.live env.now id = some entry := TTLMap.live_eq_some_iff.mpr ⟨hheld, hvisible⟩
  cases c with
  | rand => exact hheld
  | setNX key value expiration =>
    simp only [object]
    rcases Redis.setNX_cases env.up env.now key value expiration db with
      ⟨e, h⟩ | ⟨-, h⟩ | ⟨hfree, h⟩ <;> rw [h]
    · exact hheld
    · exact hheld
    · have hne : id ≠ key := by
        rintro rfl
        exact absurd (hlive.symm.trans hfree) nofun
      exact (TTLMap.set_ne _ hne).trans hheld
  | getDel key =>
    by_cases hkey : key = id
    · subst hkey
      have hup : env.up = false := hload rfl
      simpa [object, Redis.getDel, hup] using hheld
    · simp only [object, Redis.getDel]
      split
      · split <;> exact (TTLMap.erase_ne (Ne.symm hkey)).trans hheld
      · exact hheld

/-- **Run lemma.** -/
theorem replay_of_held (hheld : db id = some entry) (hvisible : entry.visible now = true)
    (ht : ∀ ev ∈ t, ev.env.now ≤ now ∧ (ev.cmd = .getDel id → ev.env.up = false)) :
    object.replay db t id = some entry := by
  induction t generalizing db with
  | nil => exact hheld
  | cons ev t ih =>
    obtain ⟨⟨hnow, hload⟩, hrest⟩ := List.forall_mem_cons.mp ht
    exact ih (exec_of_held hheld (TTLMap.visible_of_le hnow hvisible) hload) hrest

theorem getDel_of_live {env : Env} (hup : env.up = true) (hlive : db.live env.now id = some entry) :
    (object.exec env (.getDel id) db).1 = .ok entry.value := by
  simp [object, Redis.getDel, hup, hlive]

/-- A call of `Load` has made its only step and returned, or made none. -/
theorem load_calls {q : Prog Api Result} (h : Prog.Path ((Call.load id).prog codec) l q) :
    l = [] ∨ ∃ reply, l = [⟨.getDel id, reply⟩] ∧ q = .done (.loaded (loaded codec reply)) := by
  rcases Prog.path_call_iff.mp h with ⟨rfl, -⟩ | ⟨reply, l', rfl, hdone⟩
  · exact .inl rfl
  · obtain ⟨rfl, rfl⟩ := Prog.path_done_iff.mp hdone
    exact .inr ⟨reply, rfl, rfl⟩

/-! ### Whole runs -/

section Runs

variable {calls : ℕ → Call} {pre post : List StoreEvent} {ev : StoreEvent}
  {q : Pool Api Redis.DB Result} {expiry : Option ℤ}

/-- What was stored is found. -/
theorem found_of_stored (hrun : Runs object (clients codec calls db) (pre ++ ev :: post) q)
    (hheld : object.replay db (pre ++ [ev]) id = some ⟨payload, expiry⟩)
    (hpayload : codec.unmarshal payload = some rec) :
    Found calls id rec expiry post q.threads := by
  rintro mid load rest rfl hcall hup hmid hexpiry
  have hpath := hrun.path load.thread
  simp only [clients, hcall] at hpath
  have hload : load ∈ pre ++ ev :: (mid ++ load :: rest) := by simp
  have hmem := mem_callsOf hload
  rcases load_calls hpath with hnil | ⟨reply, hcalls, hdone⟩
  · rw [hnil] at hmem
    exact absurd hmem List.not_mem_nil
  rw [hcalls, List.mem_singleton] at hmem
  have hlegal := hrun.legal
  rw [List.append_cons, ← List.append_assoc, object.legal_append, object.replay_append] at hlegal
  have hvisible : TTLEntry.visible (⟨payload, expiry⟩ : TTLEntry GoString) load.env.now = true := by
    cases expiry with
    | none => rfl
    | some x => exact decide_eq_true (hexpiry x rfl)
  have hlive := TTLMap.live_eq_some_iff.mpr ⟨replay_of_held hheld hvisible hmid, hvisible⟩
  obtain ⟨j, env, c, reply'⟩ := load
  cases hmem
  obtain rfl := hlegal.2.1.trans (getDel_of_live hup hlive)
  rw [hdone, loaded, hpayload]

/-- A call of `Save` is where `Save` is. -/
theorem path_save (hrun : Runs object (clients codec calls db) t q)
    (hcall : calls i = .save rec ttl) :
    ∃ p, Prog.Path (save codec rec ttl) (callsOf i t) p ∧
      ∀ r, q.threads i = .done r → ∃ result, r = .saved result ∧ p = .done result := by
  have hpath := hrun.path i
  simp only [clients, hcall, Call.prog] at hpath
  obtain ⟨p, hp, hq⟩ := Prog.path_bind_pure hpath
  refine ⟨p, hp, fun r hr => ?_⟩
  obtain ⟨result, rfl, rfl⟩ := Prog.bind_pure_eq_done (hq.symm.trans hr)
  exact ⟨result, rfl, rfl⟩

/-- At most three attempts, in any run. -/
theorem length_attempts_le (hrun : Runs object (clients codec calls db) t q)
    (hcall : calls i = .save rec ttl) : (attempts i db t).length ≤ 3 := by
  obtain ⟨p, hp, -⟩ := path_save hrun hcall
  rw [← List.length_map, map_attempts, List.length_filterMap_eq_countP]
  exact countP_asked_save hp

/-- The step that stored the record of a `Save` that returned an id. -/
theorem exists_stored (hlegal : object.Legal db t)
    (h : Prog.Path (save codec rec ttl) (callsOf i t) (.done (.ok id))) :
    ∃ payload pre ev post, codec.marshal rec = some payload ∧ t = pre ++ ev :: post ∧
      ev.cmd = .setNX id payload ttl ∧
        Stored i id ⟨payload, Redis.setExpiry ev.env.now ttl none⟩ db pre ev post := by
  obtain ⟨payload, l', hmarshal, hcalls, hquiet⟩ := calls_of_saved h
  obtain ⟨pre, env, post, rfl, hpre, hpost⟩ := exists_split_of_callsOf hcalls
  rw [object.legal_append] at hlegal
  obtain ⟨hbefore, hstep, hafter⟩ := hlegal
  obtain ⟨hfree, hset⟩ := setNX_of_true hstep.symm
  refine ⟨payload, pre, _, post, hmarshal, rfl, rfl, rfl, hfree, ?_, ?_, ?_⟩
  · rw [object.replay_append]
    exact hset
  · exact idle_of_quiet hbefore (hpre ▸ hquiet)
  · rw [object.replay_append]
    exact idle_of_quiet hafter (hpost ▸ nofun)

/-- **Collision safety.** In every run, `Save` makes at most three attempts. Once it has returned an
id, it has stored the record under it, where nothing was, and done nothing else, and the record is
found there; with an error it has changed nothing. It gives up after three ids that were live. -/
theorem save_collisionSafe
    (hcodec : ∀ payload, codec.marshal rec = some payload → codec.unmarshal payload = some rec)
    (hrun : Runs object (clients codec calls db) t q) (hcall : calls i = .save rec ttl) :
    (attempts i db t).length ≤ 3 ∧ ∀ result, q.threads i = .done (.saved result) →
      CollisionSafe codec calls i rec ttl db t q.threads result := by
  refine ⟨length_attempts_le hrun hcall, fun result hdone => ?_⟩
  have hlegal : object.Legal db t := hrun.legal
  obtain ⟨p, hp, hq⟩ := path_save hrun hcall
  obtain ⟨result', heq, rfl⟩ := hq _ hdone
  obtain rfl := Result.saved.inj heq
  constructor
  case drawn =>
    rw [← map_asked_of_save hp, ← map_attempts i db t, List.map_map]
    rfl
  case saved =>
    rintro id rfl
    obtain ⟨payload, pre, ev, post, hmarshal, rfl, hcmd, hstored⟩ := exists_stored hlegal hp
    refine ⟨payload, pre, ev, post, hmarshal, rfl, hcmd, hstored, ?_⟩
    refine found_of_stored hrun ?_ (hcodec payload hmarshal)
    rw [hstored.stored, TTLMap.set_self]
  case failed =>
    rintro e rfl
    exact idle_of_quiet hlegal (quiet_of_failed hp)
  case exhausted => exact exhausted_iff hlegal hp

end Runs

/-! ### A collision -/

/-- Two calls of `Save`, and a `Load` of the id of the first. -/
def collidingCalls : ℕ → Call
  | 0 => .save (epochRecord "a" 0) (5 * Duration.second)
  | 1 => .save (epochRecord "b" 1) (10 * Duration.millisecond)
  | _ => .load (List.replicate 32 49)

/-- Both calls of `Save` draw the same id, and call 1 is the first to store its record. -/
def collidingSchedule : List (ℕ × Env) :=
  let draw (byte : UInt8) : Env := ⟨0, some (Vector.replicate 16 byte), true⟩
  [(0, draw 0), (1, draw 0), (1, draw 0), (0, draw 0), (0, draw 17), (0, draw 17), (2, draw 17)]

/-- The run that this gives. -/
def collidingRun : List StoreEvent × Pool Api Redis.DB Result :=
  Pool.run object (clients epochCodec collidingCalls Redis.empty) collidingSchedule

theorem save_collisionSafe_collidingRun :
    (attempts 0 Redis.empty collidingRun.1).map Attempt.live = [true, false] ∧
      CollisionSafe epochCodec collidingCalls 0 (epochRecord "a" 0) (5 * Duration.second) Redis.empty
        collidingRun.1 collidingRun.2.threads (.ok (List.replicate 32 49)) := by
  have hmarshal : epochCodec.marshal (epochRecord "a" 0) = some (epochText "a" 0) := by
    decide +kernel
  have hunmarshal : epochCodec.unmarshal (epochText "a" 0) = some (epochRecord "a" 0) := by
    decide +kernel
  have hcall : collidingCalls 0 = .save (epochRecord "a" 0) (5 * Duration.second) := rfl
  have hsafe := save_collisionSafe
    (fun payload h => Option.some.inj (hmarshal.symm.trans h) ▸ hunmarshal)
    (Pool.runs_run object (clients epochCodec collidingCalls Redis.empty) collidingSchedule) hcall
  exact ⟨by decide +kernel, hsafe.2 _ (by rfl)⟩

end RedisKeyStore

end KeyBank
