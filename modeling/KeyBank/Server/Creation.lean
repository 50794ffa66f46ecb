import KeyBank.Server.VaultRun

/-!
# Creating keys

`Save` writes under a random id without looking whether the id is in use: the in-memory map is
assigned to, and `SET` overwrites. (The second Redis store of the repository uses `SETNX` and draws
again; the server does not run on it.) So creating a key destroys another exactly when the drawn id
names a live record. `creates_iff` says this of every step of every run; `creates_breach` is a run
in which two `POST` requests draw the same id.
-/

namespace KeyBank

open Interleaving

/-- The state `s'` after `Save` has returned the id `x` in the state `s`: a new entry has been
added, and nothing else has changed. -/
structure Created (b : Backend) (s s' : b.State) (env : Env) (priv : Bytes) (ttl : Duration)
    (x : GoString) : Prop where
  /-- The id named no live record. -/
  fresh : (b.vault.view s).live env.now x = none
  /-- It now names this record, which expires when its lifetime is over. -/
  added : ∃ v, b.vault.enc ⟨priv, env.now⟩ = some v ∧
    b.vault.view s' x = some ⟨v, some (b.expiry env.now ttl)⟩
  /-- Redis counts in milliseconds; a lifetime of a whole number of them is kept to exactly. -/
  lifetime : ttl.toInt % 1000000 = 0 → b.expiry env.now ttl = env.now + ttl.toInt
  /-- Every other id keeps its record and its expiry. -/
  others : ∀ y, y ≠ x → b.vault.view s' y = b.vault.view s y

/-- The step, if it is a `Save`, returns an error and changes nothing, or creates a key. -/
def Creates (b : Backend) (s : b.State) (ev : ApiEvent) : Prop :=
  ∀ priv ttl, ev.cmd = .save priv ttl →
    (∃ e, (b.object.exec ev.env (.save priv ttl) s).1 = .error e ∧
      (b.object.exec ev.env (.save priv ttl) s).2 = s) ∨
    ∃ x, (b.object.exec ev.env (.save priv ttl) s).1 = .ok x ∧
      Created b s (b.object.exec ev.env (.save priv ttl) s).2 ev.env priv ttl x

/-- Whether a record can be written: in Redis, if it has a JSON text and Redis answers. -/
def Backend.writes : Backend → Env → Record → Bool
  | mem, _, _ => true
  | redis codec _ _, env, r => env.up && (codec.marshal r).isSome

/-- The step, if it is a `Save` that gets as far as writing, draws an id that names no live
record. -/
def SparesLive (b : Backend) (s : b.State) (ev : ApiEvent) : Prop :=
  ∀ priv ttl, ev.cmd = .save priv ttl → b.writes ev.env ⟨priv, ev.env.now⟩ = true →
    ∀ x, randomID ev.env.draw = some x → (b.vault.view s).live ev.env.now x = none

/-! ### One step -/

/-- `Save` answers with the id it draws, if it can write. -/
theorem Backend.save_eq_ok {b : Backend} {env : Env} {priv : Bytes} {ttl : Duration} {s : b.State}
    {x : GoString} (hwrites : b.writes env ⟨priv, env.now⟩ = true)
    (hx : randomID env.draw = some x) : (b.object.exec env (.save priv ttl) s).1 = .ok x := by
  rcases b with _ | ⟨codec, create, fetch⟩
  · simp [Backend.object, apiObject, storeAdapterSave, memKeyStore, hx]
  · rw [Backend.writes, Bool.and_eq_true, Option.isSome_iff_exists] at hwrites
    obtain ⟨hup, payload, hpayload⟩ := hwrites
    simp [Backend.object, apiObject, storeAdapterSave, redisKeyStore, hx, hpayload, Redis.set,
      hup]

/-- An answer other than an error has been written. -/
theorem Backend.writes_of_save_eq_ok {b : Backend} {env : Env} {priv : Bytes} {ttl : Duration}
    {s : b.State} {x : GoString} (hok : (b.object.exec env (.save priv ttl) s).1 = .ok x) :
    b.writes env ⟨priv, env.now⟩ = true := by
  rcases b with _ | ⟨codec, create, fetch⟩
  · rfl
  · rcases redisKeyStore_save_cases codec env ⟨priv, env.now⟩ ttl s with
      ⟨e, herr⟩ | ⟨y, payload, -, hpayload, hup, -⟩
    · have hexec : ((redisKeyStore codec).save env ⟨priv, env.now⟩ ttl s).1 = .ok x := hok
      rw [herr] at hexec
      exact absurd hexec nofun
    · rw [Backend.writes, hup, hpayload]
      rfl

/-- The expiry is exact for a whole number of milliseconds. -/
theorem Backend.expiry_of_whole (b : Backend) (now : ℤ) {ttl : Duration} (hpos : 0 < ttl)
    (hwhole : ttl.toInt % 1000000 = 0) : b.expiry now ttl = now + ttl.toInt := by
  rcases b with _ | ⟨codec, create, fetch⟩
  · rfl
  · exact congrArg (now + ·) (Redis.expireAfter_of_whole hpos hwhole)

/-- **One `Save`.** It creates a key or fails exactly when it writes over no live record. -/
theorem creates_iff_sparesLive {b : Backend} {ev : ApiEvent} (hpos : PositiveTTL ev)
    (s : b.State) : Creates b s ev ↔ SparesLive b s ev := by
  constructor
  · intro hcreates priv ttl hcmd hwrites x hx
    have hok : (b.object.exec ev.env (.save priv ttl) s).1 = .ok x :=
      Backend.save_eq_ok hwrites hx
    rcases hcreates priv ttl hcmd with ⟨e, herr, -⟩ | ⟨y, hy, hcreated⟩
    · rw [hok] at herr
      exact absurd herr nofun
    · rw [hok, Except.ok.injEq] at hy
      exact hy ▸ hcreated.fresh
  · intro hspares priv ttl hcmd
    have httl : 0 < ttl := hpos priv ttl hcmd
    rcases b.vault.save_cases ev.env priv ttl s httl with herr | ⟨x, v, hx, hv, hok, hview⟩
    · exact .inl herr
    · refine .inr ⟨x, hok, ?_, ⟨v, hv, ?_⟩, b.expiry_of_whole _ httl, fun y hy => ?_⟩
      · exact hspares priv ttl hcmd (Backend.writes_of_save_eq_ok hok) x hx
      · rw [hview, TTLMap.set_self, b.vault_expiry]
      · rw [hview, TTLMap.set_ne _ hy]

/-! ### Every run -/

/-- **Creating a key never destroys another**, in a run, exactly when each `Save` that gets as far
as writing draws an id that names no live record. -/
theorem creates_iff {b : Backend} {assets : Assets} {decode : Decoder} {h : Handlers}
    {trustXFF : Bool} {requests : ℕ → Request} {t : List ApiEvent} {q : Pool Api b.State Exit}
    (hrun : Runs b.object (serverPool b (appHandler assets decode h trustXFF) requests) t q) :
    b.object.Always (Creates b) b.init t ↔ b.object.Always (SparesLive b) b.init t := by
  have hserves (i : ℕ) : Serves decode h trustXFF (requests i).capped
      ((serverPool b (appHandler assets decode h trustXFF) requests).threads i) :=
    serves_appHandler ResponseWriter.fresh_new (requests i)
  refine b.object.always_congr fun ev hev s => creates_iff_sparesLive ?_ s
  exact positiveTTL_of_mem (H := fun _ => h) hserves hrun hev

/-- Two `POST` requests, each with a key pair of its own. -/
def twoPosts (i : ℕ) : Request :=
  bareRequest "POST" "/api/keys" (some ⟨[1], [UInt8.ofNat (2 + i)]⟩)

abbrev twoPostsPool : Pool Api MemData Exit :=
  serverPool .mem (appHandler emptyAssets decodeEmpty (.new none) false) twoPosts

/-- They are served one after the other, the second a second later with the draw `d`. -/
def twoPostsRun (d : Vector UInt8 16) : List ApiEvent × Pool Api MemData Exit :=
  twoPostsPool.run Backend.mem.object
    [(0, stepAt 0), (0, stepAt 0), (1, stepAt 1000000000), (1, ⟨1000000000, some d, true⟩)]

/-- With another draw nothing is lost. -/
theorem creates_otherDraw :
    Backend.mem.object.Always (Creates .mem) Backend.mem.init
      (twoPostsRun (Vector.replicate 16 1)).1 := by
  have hrun : Runs Backend.mem.object twoPostsPool (twoPostsRun (Vector.replicate 16 1)).1
      (twoPostsRun (Vector.replicate 16 1)).2 := Pool.runs_run _ _ _
  refine (creates_iff hrun).mpr ⟨nofun, ?_, nofun, ?_, trivial⟩
  · rintro priv ttl - - x -
    rfl
  · rintro priv ttl - - x hx
    obtain rfl : hexEncodeToString (List.replicate 16 1) = x := Option.some.inj hx
    rfl

/-- With the same draw the second `Save` succeeds and the first key, live for a day, is gone. -/
theorem creates_breach :
    Runs Backend.mem.object twoPostsPool (twoPostsRun (Vector.replicate 16 0)).1
        (twoPostsRun (Vector.replicate 16 0)).2 ∧
      ¬ Backend.mem.object.Always (Creates .mem) Backend.mem.init
        (twoPostsRun (Vector.replicate 16 0)).1 ∧
      ∃ pre ev, (twoPostsRun (Vector.replicate 16 0)).1 = pre ++ [ev] ∧
        savedID ev = some zeroID ∧
        (memVault.view (Backend.mem.object.replay Backend.mem.init pre)).live ev.env.now zeroID =
          some ⟨⟨[2], 0⟩, some 86400000000000⟩ ∧
        memVault.view (Backend.mem.object.replay Backend.mem.init (pre ++ [ev])) zeroID =
          some ⟨⟨[3], 1000000000⟩, some 86401000000000⟩ := by
  have hrun : Runs Backend.mem.object twoPostsPool (twoPostsRun (Vector.replicate 16 0)).1
      (twoPostsRun (Vector.replicate 16 0)).2 := Pool.runs_run _ _ _
  refine ⟨hrun, ?_, (twoPostsRun (Vector.replicate 16 0)).1.take 3,
    ⟨1, stepAt 1000000000, .save [3] 86400000000000, .ok zeroID⟩, rfl, rfl, rfl, rfl⟩
  rintro ⟨-, -, -, hlast, -⟩
  rcases hlast [3] 86400000000000 rfl with ⟨e, herr, -⟩ | ⟨x, hx, hcreated⟩
  · exact absurd herr nofun
  · obtain rfl : zeroID = x := Except.ok.inj hx
    exact absurd hcreated.fresh nofun

end KeyBank
