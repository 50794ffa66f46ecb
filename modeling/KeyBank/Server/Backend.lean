import KeyBank.Foundation.Interleaving
import KeyBank.Server.RateLimit

/-!
# The shared state behind the handlers

What concurrent requests share is one object: the key store and the two rate limiters. Its atomic
commands are `Api`: one call of a limiter, one `Save` and one `Load` through `storeAdapter`.

`Backend` is the choice `main` makes: with `KEYBANK_STORE=mem` the in-memory store and no
limits, otherwise Redis, with the store and both limiters on the same client and so on the same
flat key space.

`Vault` says what the two have in common, as a map from ids to entries that expire: `Save` sets
one entry under a drawn id, `Load` answers with the visible entry and removes it, a limiter call
leaves every id alone. The results about deliveries and lifetimes are proved from a `Vault`.
-/

namespace KeyBank

open Interleaving

/-- The atomic commands of the shared state. -/
inductive Cmd where
  | allow (bucket : Bucket) (ip : GoString)
  | save (privPEM : Bytes) (ttl : Duration)
  | load (id : GoString)
  deriving DecidableEq

/-- What each command replies with. -/
@[reducible] def Cmd.Reply : Cmd → Type
  | .allow _ _ => Bool
  | .save _ _ => Except StoreError GoString
  | .load _ => Except StoreError (Option Bytes)

/-- The commands with their replies. -/
abbrev Api : Interface := ⟨Cmd, Cmd.Reply⟩

/-- A store and two limiters over the same state. -/
def apiObject {σ : Type} (ks : KeyStore σ) (createLimiter fetchLimiter : RateLimiter σ) :
    Object Api Env σ where
  exec env
    | .allow .create ip, s => createLimiter.allow env ip s
    | .allow .fetch ip, s => fetchLimiter.allow env ip s
    | .save privPEM ttl, s => storeAdapterSave ks env privPEM ttl s
    | .load id, s => storeAdapterLoad ks env id s

/-- The backends `main` can choose. -/
inductive Backend where
  | mem
  | redis (codec : RecordCodec) (rateLimitCreate rateLimitFetch : ℤ)

namespace Backend

/-- The shared state. -/
@[reducible] def State : Backend → Type
  | mem => MemData
  | redis _ _ _ => Redis.DB

/-- The state at the start. -/
def init : (b : Backend) → b.State
  | mem => newMemKeyStore
  | redis _ _ _ => Redis.empty

/-- `main`'s wiring. -/
def object : (b : Backend) → Object Api Env b.State
  | mem => apiObject memKeyStore noopRateLimiter noopRateLimiter
  | redis codec create fetch =>
    apiObject (redisKeyStore codec) (redisRateLimiter Bucket.create.name create)
      (redisRateLimiter Bucket.fetch.name fetch)

/-- The instant at which an entry saved with a positive lifetime expires: to the nanosecond in
memory, after a whole number of milliseconds or seconds in Redis. -/
def expiry : Backend → ℤ → Duration → ℤ
  | mem, now, ttl => timeAdd now ttl
  | redis _ _ _, now, ttl => now + Redis.expireAfter ttl

/-- The codec undoes itself on a record, when the backend uses one. -/
def RoundTrips : Backend → Record → Prop
  | mem, _ => True
  | redis codec _ _, r => ∃ payload, codec.marshal r = some payload ∧ codec.unmarshal payload = some r

end Backend

/-! ### The vault -/

/-- A shared state that keeps its records as a map from ids to entries that expire. -/
structure Vault {σ : Type} (O : Object Api Env σ) where
  /-- How a record is kept. -/
  V : Type
  enc : Record → Option V
  dec : V → Option Record
  view : σ → TTLMap GoString V
  expiry : ℤ → Duration → ℤ
  /-- A limiter call leaves every id alone. -/
  allow_frame : ∀ env bucket ip s x, IsID x →
    view (O.exec env (.allow bucket ip) s).2 x = view s x
  /-- `Save` fails and changes nothing, or sets one entry under a drawn id. -/
  save_cases : ∀ env privPEM ttl s, 0 < ttl →
    (∃ e, (O.exec env (.save privPEM ttl) s).1 = .error e ∧
      (O.exec env (.save privPEM ttl) s).2 = s) ∨
    ∃ x v, randomID env.draw = some x ∧ enc ⟨privPEM, env.now⟩ = some v ∧
      (O.exec env (.save privPEM ttl) s).1 = .ok x ∧
      view (O.exec env (.save privPEM ttl) s).2 =
        (view s).set x ⟨v, some (expiry env.now ttl)⟩
  /-- `Load` cannot reach the store and changes nothing, or it removes the id; then it answers
  with the visible entry, unless that is no record. -/
  load_cases : ∀ env id s,
    (∃ e, (O.exec env (.load id) s).1 = .error e ∧ (O.exec env (.load id) s).2 = s) ∨
    (view (O.exec env (.load id) s).2 = (view s).erase id ∧
      (((view s).live env.now id = none ∧ (O.exec env (.load id) s).1 = .ok none) ∨
        ∃ e, (view s).live env.now id = some e ∧
          ((dec e.value = none ∧ ∃ err, (O.exec env (.load id) s).1 = .error err) ∨
            ∃ r, dec e.value = some r ∧
              (O.exec env (.load id) s).1 = .ok (some r.privPEM))))

/-- The in-memory store is a vault. -/
def memVault : Vault Backend.mem.object where
  V := Record
  enc := some
  dec := some
  view := MemData.view
  expiry := timeAdd
  allow_frame _ bucket _ _ _ _ := by cases bucket <;> rfl
  save_cases env privPEM ttl s _ := by
    rcases memKeyStore_save_cases env ⟨privPEM, env.now⟩ ttl s with ⟨-, h⟩ | ⟨x, s', hx, h, hview⟩
    · exact .inl ⟨.random, by simp [Backend.object, apiObject, storeAdapterSave, h]⟩
    · refine .inr ⟨x, ⟨privPEM, env.now⟩, hx, rfl, ?_, ?_⟩ <;>
        simp [Backend.object, apiObject, storeAdapterSave, h, hview]
  load_cases env id s := by
    obtain ⟨s', h, hview⟩ := memKeyStore_load_cases env id s
    refine .inr ⟨?_, ?_⟩
    · cases hlive : s.view.live env.now id <;>
        simp [Backend.object, apiObject, storeAdapterLoad, h, hlive, hview]
    · cases hlive : s.view.live env.now id with
      | none => exact .inl ⟨rfl, by simp [Backend.object, apiObject, storeAdapterLoad, h, hlive]⟩
      | some e =>
        exact .inr ⟨e, rfl, .inr ⟨e.value, rfl, by
          simp [Backend.object, apiObject, storeAdapterLoad, h, hlive]⟩⟩

/-- The Redis store with the limiters on the same key space is a vault. -/
def redisVault (codec : RecordCodec) (create fetch : ℤ) :
    Vault (Backend.redis codec create fetch).object where
  V := GoString
  enc := codec.marshal
  dec := codec.unmarshal
  view db := db
  expiry now ttl := now + Redis.expireAfter ttl
  allow_frame _ bucket ip _ x hx := by
    cases bucket <;> exact redisRateLimiter_allow_ne (hx.ne_counterKey _ ip)
  save_cases env privPEM ttl db hpos := by
    rcases redisKeyStore_save_cases codec env ⟨privPEM, env.now⟩ ttl db with
      ⟨e, h⟩ | ⟨x, payload, hx, hpay, -, h⟩
    · exact .inl ⟨e, by simp [Backend.object, apiObject, storeAdapterSave, h]⟩
    · refine .inr ⟨x, payload, hx, hpay, ?_, ?_⟩ <;>
        simp [Backend.object, apiObject, storeAdapterSave, h, Redis.setExpiry_of_pos hpos]
  load_cases env id db := by
    rcases redisKeyStore_load_cases codec env id db with
      ⟨-, h⟩ | ⟨-, hlive, h⟩ | ⟨e, -, hlive, ⟨hval, h⟩ | ⟨r, hval, h⟩⟩
    · exact .inl ⟨_, by simp [Backend.object, apiObject, storeAdapterLoad, h]; rfl⟩
    · exact .inr ⟨by simp [Backend.object, apiObject, storeAdapterLoad, h],
        .inl ⟨hlive, by simp [Backend.object, apiObject, storeAdapterLoad, h]⟩⟩
    · exact .inr ⟨by simp [Backend.object, apiObject, storeAdapterLoad, h],
        .inr ⟨e, hlive, .inl ⟨hval, _, by
          simp [Backend.object, apiObject, storeAdapterLoad, h]; rfl⟩⟩⟩
    · exact .inr ⟨by simp [Backend.object, apiObject, storeAdapterLoad, h],
        .inr ⟨e, hlive, .inr ⟨r, hval, by
          simp [Backend.object, apiObject, storeAdapterLoad, h]⟩⟩⟩

/-- Every backend is a vault. -/
def Backend.vault : (b : Backend) → Vault b.object
  | .mem => memVault
  | .redis codec create fetch => redisVault codec create fetch

end KeyBank
