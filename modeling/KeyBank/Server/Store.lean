import KeyBank.Server.Redis

/-!
# The key stores

`KeyStore` is the interface of `store.go` with its two implementations: `memKeyStore`, a map in
the process, and `redisKeyStore`, which keeps the JSON text of a record under its bare id. Each
operation is one atomic step on the store's state; what it takes from outside (the clock, the
random source, whether Redis answers) is the `Env` of that step.

`encoding/json` on records is the parameter `RecordCodec`. `storeAdapter` is the bridge to the
handlers, which see private PEM texts only.
-/

namespace KeyBank

/-- What one atomic step takes from outside: the clock, what `rand.Read` yields (`none` is an
error), and whether Redis answers. -/
structure Env where
  now : ℤ
  draw : Option (Vector UInt8 16)
  up : Bool

/-- `Record`, the value persisted for each generated keypair. -/
structure Record where
  privPEM : GoString
  createdAt : ℤ
  deriving DecidableEq, Repr

/-- `json.Marshal` and `json.Unmarshal` on `Record`. -/
structure RecordCodec where
  marshal : Record → Option GoString
  unmarshal : GoString → Option Record

/-- The errors `Save` and `Load` return. -/
inductive StoreError where
  | random
  | marshal
  | unmarshal
  | redis (e : Redis.Error)
  deriving DecidableEq, Repr

/-- The interface `KeyStore`, over a store with states in `σ`. -/
structure KeyStore (σ : Type) where
  save : Env → Record → Duration → σ → Except StoreError GoString × σ
  load : Env → GoString → σ → Except StoreError (Option Record) × σ

/-- `randomID`: 16 random bytes in hexadecimal. -/
def randomID (draw : Option (Vector UInt8 16)) : Option GoString :=
  draw.map fun b => hexEncodeToString b.toList

/-- The shape of the ids `randomID` yields. -/
def IsID (x : GoString) : Prop := ∃ b : Vector UInt8 16, x = hexEncodeToString b.toList

theorem isID_of_randomID {draw : Option (Vector UInt8 16)} {x : GoString}
    (h : randomID draw = some x) : IsID x := by
  obtain ⟨b, -, rfl⟩ := Option.map_eq_some_iff.mp h
  exact ⟨b, rfl⟩

/-! ### The in-memory store -/

/-- `memEntry`: a record with its expiry. -/
structure MemEntry where
  record : Record
  expiry : ℤ
  deriving DecidableEq, Repr

/-- The map behind `memKeyStore`. -/
abbrev MemData : Type := GoString → Option MemEntry

/-- `newMemKeyStore`. -/
def newMemKeyStore : MemData := fun _ => none

/-- `memKeyStore`. -/
def memKeyStore : KeyStore MemData where
  save env rec ttl data :=
    match randomID env.draw with
    | none => (.error .random, data)
    | some id => (.ok id, Function.update data id (some ⟨rec, timeAdd env.now ttl⟩))
  load env id data :=
    match data id with
    | none => (.ok none, data)
    | some entry =>
      let data := Function.update data id none
      if entry.expiry < env.now then (.ok none, data) else (.ok (some entry.record), data)

/-! ### The Redis store -/

/-- `redisKeyStore`. -/
def redisKeyStore (codec : RecordCodec) : KeyStore Redis.DB where
  save env rec ttl db :=
    match randomID env.draw with
    | none => (.error .random, db)
    | some id =>
      match codec.marshal rec with
      | none => (.error .marshal, db)
      | some payload =>
        match Redis.set env.up env.now id payload ttl db with
        | (.error e, db) => (.error (.redis e), db)
        | (.ok (), db) => (.ok id, db)
  load env id db :=
    match Redis.getDel env.up env.now id db with
    | (.error .nil, db) => (.ok none, db)
    | (.error e, db) => (.error (.redis e), db)
    | (.ok val, db) =>
      match codec.unmarshal val with
      | none => (.error .unmarshal, db)
      | some rec => (.ok (some rec), db)

/-! ### The adapter -/

variable {σ : Type}

/-- `storeAdapter.Save`. -/
def storeAdapterSave (ks : KeyStore σ) (env : Env) (privPEM : GoString) (ttl : Duration) (s : σ) :
    Except StoreError GoString × σ :=
  ks.save env ⟨privPEM, env.now⟩ ttl s

/-- `storeAdapter.Load`. -/
def storeAdapterLoad (ks : KeyStore σ) (env : Env) (id : GoString) (s : σ) :
    Except StoreError (Option Bytes) × σ :=
  match ks.load env id s with
  | (.error e, s) => (.error e, s)
  | (.ok none, s) => (.ok none, s)
  | (.ok (some rec), s) => (.ok (some rec.privPEM), s)

/-! ### What the stores do, as maps with expiring entries -/

/-- The in-memory map as a map with expiring entries. -/
def MemData.view (data : MemData) : TTLMap GoString Record :=
  fun id => (data id).map fun e => ⟨e.record, some e.expiry⟩

theorem MemData.view_update_some (data : MemData) (id : GoString) (e : MemEntry) :
    MemData.view (Function.update data id (some e)) =
      TTLMap.set data.view id ⟨e.record, some e.expiry⟩ := by
  funext k
  by_cases h : k = id
  · subst h; simp [MemData.view]
  · simp [MemData.view, h]

theorem MemData.view_update_none (data : MemData) (id : GoString) :
    MemData.view (Function.update data id none) = TTLMap.erase data.view id := by
  funext k
  by_cases h : k = id
  · subst h; simp [MemData.view]
  · simp [MemData.view, h]

/-- Everything `memKeyStore.Save` can do. -/
theorem memKeyStore_save_cases (env : Env) (rec : Record) (ttl : Duration) (data : MemData) :
    (randomID env.draw = none ∧ memKeyStore.save env rec ttl data = (.error .random, data)) ∨
    ∃ id data', randomID env.draw = some id ∧ memKeyStore.save env rec ttl data = (.ok id, data') ∧
      data'.view = TTLMap.set data.view id ⟨rec, some (timeAdd env.now ttl)⟩ := by
  cases hid : randomID env.draw with
  | none => exact .inl ⟨rfl, by simp [memKeyStore, hid]⟩
  | some id =>
    refine .inr ⟨id, Function.update data id (some ⟨rec, timeAdd env.now ttl⟩), rfl, ?_,
      MemData.view_update_some _ _ _⟩
    simp only [memKeyStore, hid]

/-- Everything `memKeyStore.Load` can do: it answers with the visible entry, if there is one, and
in any case the id is gone. -/
theorem memKeyStore_load_cases (env : Env) (id : GoString) (data : MemData) :
    ∃ data', memKeyStore.load env id data =
        (.ok ((data.view.live env.now id).map fun e => e.value), data') ∧
      data'.view = TTLMap.erase data.view id := by
  cases hdata : data id with
  | none =>
    refine ⟨data, by simp [memKeyStore, hdata, MemData.view, TTLMap.live], funext fun k => ?_⟩
    by_cases h : k = id
    · subst h; simp [MemData.view, hdata]
    · simp [h]
  | some entry =>
    refine ⟨_, ?_, MemData.view_update_none data id⟩
    by_cases hexp : entry.expiry < env.now
    · have hvis : ¬ env.now ≤ entry.expiry := by omega
      simp [memKeyStore, hdata, hexp, MemData.view, TTLMap.live, TTLEntry.visible, Option.filter, hvis]
    · have hvis : env.now ≤ entry.expiry := by omega
      simp [memKeyStore, hdata, hexp, MemData.view, TTLMap.live, TTLEntry.visible, Option.filter, hvis]

/-- Everything `redisKeyStore.Save` can do. -/
theorem redisKeyStore_save_cases (codec : RecordCodec) (env : Env) (rec : Record)
    (ttl : Duration) (db : Redis.DB) :
    (∃ e, (redisKeyStore codec).save env rec ttl db = (.error e, db)) ∨
    ∃ id payload, randomID env.draw = some id ∧ codec.marshal rec = some payload ∧
      env.up = true ∧ (redisKeyStore codec).save env rec ttl db = (.ok id,
        TTLMap.set db id ⟨payload, Redis.setExpiry env.now ttl
          ((db.live env.now id).bind fun e => e.expiry)⟩) := by
  cases hid : randomID env.draw with
  | none => exact .inl ⟨.random, by simp only [redisKeyStore, hid]⟩
  | some id =>
    cases hpay : codec.marshal rec with
    | none => exact .inl ⟨.marshal, by simp only [redisKeyStore, hid, hpay]⟩
    | some payload =>
      cases hup : env.up with
      | false => exact .inl ⟨.redis .unreachable, by simp [redisKeyStore, hid, hpay, Redis.set, hup]⟩
      | true =>
        exact .inr ⟨id, payload, rfl, rfl, rfl, by simp [redisKeyStore, hid, hpay, Redis.set, hup]⟩

/-- Everything `redisKeyStore.Load` can do. Reading a value that is not a record is an error,
and the key is gone all the same. -/
theorem redisKeyStore_load_cases (codec : RecordCodec) (env : Env) (id : GoString)
    (db : Redis.DB) :
    (env.up = false ∧
      (redisKeyStore codec).load env id db = (.error (.redis .unreachable), db)) ∨
    (env.up = true ∧ db.live env.now id = none ∧
      (redisKeyStore codec).load env id db = (.ok none, TTLMap.erase db id)) ∨
    ∃ e, env.up = true ∧ db.live env.now id = some e ∧
      ((codec.unmarshal e.value = none ∧
          (redisKeyStore codec).load env id db = (.error .unmarshal, TTLMap.erase db id)) ∨
        ∃ rec, codec.unmarshal e.value = some rec ∧
          (redisKeyStore codec).load env id db = (.ok (some rec), TTLMap.erase db id)) := by
  cases hup : env.up with
  | false => exact .inl ⟨rfl, by simp [redisKeyStore, Redis.getDel, hup]⟩
  | true =>
    refine .inr ?_
    cases hlive : db.live env.now id with
    | none => exact .inl ⟨rfl, rfl, by simp [redisKeyStore, Redis.getDel, hup, hlive]⟩
    | some e =>
      refine .inr ⟨e, rfl, rfl, ?_⟩
      cases hval : codec.unmarshal e.value with
      | none => exact .inl ⟨rfl, by simp [redisKeyStore, Redis.getDel, hup, hlive, hval]⟩
      | some rec => exact .inr ⟨rec, rfl, by simp [redisKeyStore, Redis.getDel, hup, hlive, hval]⟩

end KeyBank
