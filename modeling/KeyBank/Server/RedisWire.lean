import KeyBank.Server.Backend
import KeyBank.Server.RedisConn

/-!
# The server over its connections to Redis

`redisKeyStore` and `redisRateLimiter` once more, with a connection in the place of the key space.
`redis_over_wire` concludes that the server of this repository cannot tell the two apart, whatever
bytes its keys and values hold: it has the same runs over both.
-/

namespace KeyBank

open Interleaving

/-- `redisKeyStore` with its client. -/
def wireKeyStore (codec : RecordCodec) (S : Redis.Server) : KeyStore Redis.Conn where
  save env rec ttl c :=
    match randomID env.draw with
    | none => (.error .random, c)
    | some id =>
      match codec.marshal rec with
      | none => (.error .marshal, c)
      | some payload =>
        match Redis.Conn.set S env.up env.now id payload ttl c with
        | (.error e, c) => (.error (.redis e), c)
        | (.ok (), c) => (.ok id, c)
  load env id c :=
    match Redis.Conn.getDel S env.up env.now id c with
    | (.error .nil, c) => (.ok none, c)
    | (.error e, c) => (.error (.redis e), c)
    | (.ok val, c) =>
      match codec.unmarshal val with
      | none => (.error .unmarshal, c)
      | some rec => (.ok (some rec), c)

/-- `redisRateLimiter` with its client. -/
def wireRateLimiter (S : Redis.Server) (bucket : GoString) (limit : ℤ) :
    RateLimiter Redis.Conn where
  allow env ip c :=
    match Redis.Conn.run S env.up env.now (counterKey bucket ip) c with
    | (.error _, c) => (false, c)
    | (.ok count, c) => (count ≤ limit, c)

/-- `main`'s wiring with `KEYBANK_STORE=redis`. -/
def wireObject (codec : RecordCodec) (create fetch : ℤ) (S : Redis.Server) :
    Object Api Env Redis.Conn :=
  apiObject (wireKeyStore codec S) (wireRateLimiter S Bucket.create.name create)
    (wireRateLimiter S Bucket.fetch.name fetch)

/-- What a command sends is no longer than a Go string can be. -/
def Sendable (codec : RecordCodec) (env : Env) : Cmd → Prop
  | .allow bucket ip => Redis.Fits (counterKey bucket.name ip)
  | .save privPEM _ =>
    ∀ payload, codec.marshal ⟨privPEM, env.now⟩ = some payload → Redis.Fits payload
  | .load id => Redis.Fits id

/-- The connection is idle, and at its other end there is `db`. -/
structure Carries (c : Redis.Conn) (db : Redis.DB) : Prop where
  idle : ∃ loaded, c = Redis.Conn.idle ⟨db, loaded⟩
  fits : ∀ key e, db key = some e → Redis.Fits e.value

section Refinement

variable {codec : RecordCodec} {create fetch : ℤ} {S : Redis.Server}

/-- An id has 32 characters. -/
theorem fits_of_isID {id : GoString} (h : IsID id) : Redis.Fits id := by
  obtain ⟨b, rfl⟩ := h
  refine Redis.fits_of_length ?_
  rw [length_hexEncodeToString, Vector.length_toList]
  exact Nat.le_add_left 32 968

theorem wireKeyStore_save {env : Env} {rec : Record} (ttl : Duration) {c : Redis.Conn}
    {db : Redis.DB} (h : Carries c db)
    (hfits : ∀ payload, codec.marshal rec = some payload → Redis.Fits payload) :
    ((wireKeyStore codec S).save env rec ttl c).1 = ((redisKeyStore codec).save env rec ttl db).1 ∧
      Carries ((wireKeyStore codec S).save env rec ttl c).2
        ((redisKeyStore codec).save env rec ttl db).2 := by
  obtain ⟨⟨loaded, rfl⟩, hdb⟩ := h
  cases hid : randomID env.draw with
  | none =>
    simp only [wireKeyStore, redisKeyStore, hid]
    exact ⟨trivial, ⟨loaded, rfl⟩, hdb⟩
  | some id =>
    cases hpayload : codec.marshal rec with
    | none =>
      simp only [wireKeyStore, redisKeyStore, hid, hpayload]
      exact ⟨trivial, ⟨loaded, rfl⟩, hdb⟩
    | some payload =>
      have hidFits := fits_of_isID (isID_of_randomID hid)
      simp only [wireKeyStore, redisKeyStore, hid, hpayload,
        Redis.Conn.set_idle S env.up env.now ttl hidFits (hfits payload hpayload)]
      cases hup : env.up with
      | false => exact ⟨rfl, ⟨loaded, rfl⟩, hdb⟩
      | true => exact ⟨rfl, ⟨loaded, rfl⟩, TTLMap.forall_value_set hdb id (hfits payload hpayload)⟩

theorem wireKeyStore_load {env : Env} {id : GoString} {c : Redis.Conn} {db : Redis.DB}
    (h : Carries c db) (hfits : Redis.Fits id) :
    ((wireKeyStore codec S).load env id c).1 = ((redisKeyStore codec).load env id db).1 ∧
      Carries ((wireKeyStore codec S).load env id c).2
        ((redisKeyStore codec).load env id db).2 := by
  obtain ⟨⟨loaded, rfl⟩, hdb⟩ := h
  have hget : Redis.Conn.getDel S env.up env.now id (Redis.Conn.idle ⟨db, loaded⟩) =
      ((Redis.getDel env.up env.now id db).1,
        Redis.Conn.idle ⟨(Redis.getDel env.up env.now id db).2, loaded⟩) :=
    Redis.Conn.getDel_idle S env.up env.now hfits (hdb id)
  simp only [wireKeyStore, redisKeyStore, hget]
  cases hup : env.up with
  | false => exact ⟨rfl, ⟨loaded, rfl⟩, hdb⟩
  | true =>
    have herase := TTLMap.forall_value_erase hdb id
    rw [Redis.getDel, if_pos rfl]
    cases hlive : db.live env.now id with
    | none => exact ⟨rfl, ⟨loaded, rfl⟩, herase⟩
    | some e =>
      dsimp only
      cases codec.unmarshal e.value with
      | none => exact ⟨rfl, ⟨loaded, rfl⟩, herase⟩
      | some rec => exact ⟨rfl, ⟨loaded, rfl⟩, herase⟩

/-- Counters have short values. -/
theorem fits_runScript {env : Env} {key : GoString} {db : Redis.DB}
    (hdb : ∀ key e, db key = some e → Redis.Fits e.value) :
    ∀ key' e, (runScript env key db).2 key' = some e → Redis.Fits e.value := by
  have hcount : ∀ n, (incrScript env.now key db).1 = .ok n → Redis.Fits (decimalInt n) := by
    intro n hn
    rw [Redis.fst_incrScript] at hn
    obtain ⟨hmin, hmax⟩ := Redis.mem_range_of_incr hn
    exact Redis.fits_of_length
      (Nat.le_trans (Redis.length_decimalInt_le n hmin hmax) (by decide))
  rw [runScript]
  split
  · obtain ⟨_, h⟩ | h | ⟨e, n, -, -, h⟩ := incrScript_cases env.now key db
    · rw [h]
      exact hdb
    · rw [h] at hcount ⊢
      exact TTLMap.forall_value_set hdb key (hcount 1 rfl)
    · rw [h] at hcount ⊢
      exact TTLMap.forall_value_set hdb key (hcount n rfl)
  · exact hdb

theorem wireRateLimiter_allow (hsha : Redis.Fits S.sha) (hscript : Redis.Fits S.script)
    {bucket ip : GoString} (limit : ℤ) {env : Env} {c : Redis.Conn} {db : Redis.DB}
    (h : Carries c db) (hfits : Redis.Fits (counterKey bucket ip)) :
    ((wireRateLimiter S bucket limit).allow env ip c).1 =
        ((redisRateLimiter bucket limit).allow env ip db).1 ∧
      Carries ((wireRateLimiter S bucket limit).allow env ip c).2
        ((redisRateLimiter bucket limit).allow env ip db).2 := by
  obtain ⟨⟨loaded, rfl⟩, hdb⟩ := h
  obtain ⟨loaded', hrun⟩ := Redis.Conn.run_idle S hsha hscript env hfits ⟨db, loaded⟩
  have hdb' : ∀ key e, (runScript env (counterKey bucket ip) db).2 key = some e →
      Redis.Fits e.value := fits_runScript hdb
  simp only [wireRateLimiter, redisRateLimiter, hrun]
  cases hout : runScript env (counterKey bucket ip) db with
  | mk out db' =>
    rw [hout] at hdb'
    cases out with
    | error e => exact ⟨rfl, ⟨loaded', rfl⟩, hdb'⟩
    | ok count => exact ⟨rfl, ⟨loaded', rfl⟩, hdb'⟩

/-- **Step lemma.** One command over the connection. -/
theorem Carries.step (hsha : Redis.Fits S.sha) (hscript : Redis.Fits S.script) {env : Env}
    {cmd : Cmd} {c : Redis.Conn} {db : Redis.DB} (h : Carries c db)
    (hcmd : Sendable codec env cmd) :
    ((wireObject codec create fetch S).exec env cmd c).1 =
        ((Backend.redis codec create fetch).object.exec env cmd db).1 ∧
      Carries ((wireObject codec create fetch S).exec env cmd c).2
        ((Backend.redis codec create fetch).object.exec env cmd db).2 := by
  cases cmd with
  | allow bucket ip =>
    cases bucket with
    | create => exact wireRateLimiter_allow hsha hscript create h hcmd
    | fetch => exact wireRateLimiter_allow hsha hscript fetch h hcmd
  | save privPEM ttl => exact wireKeyStore_save ttl h hcmd
  | load id =>
    obtain ⟨hreply, hcarries⟩ :
        ((wireKeyStore codec S).load env id c).1 = ((redisKeyStore codec).load env id db).1 ∧
          Carries ((wireKeyStore codec S).load env id c).2
            ((redisKeyStore codec).load env id db).2 := wireKeyStore_load h hcmd
    show (storeAdapterLoad (wireKeyStore codec S) env id c).1 =
        (storeAdapterLoad (redisKeyStore codec) env id db).1 ∧
      Carries (storeAdapterLoad (wireKeyStore codec S) env id c).2
        (storeAdapterLoad (redisKeyStore codec) env id db).2
    rw [storeAdapterLoad, storeAdapterLoad]
    generalize (wireKeyStore codec S).load env id c = out at hreply hcarries
    generalize (redisKeyStore codec).load env id db = out' at hreply hcarries
    obtain ⟨reply, c'⟩ := out
    obtain ⟨reply', db'⟩ := out'
    obtain rfl : reply = reply' := hreply
    match reply with
    | .error _ => exact ⟨rfl, hcarries⟩
    | .ok none => exact ⟨rfl, hcarries⟩
    | .ok (some rec) => exact ⟨rfl, hcarries⟩

/-- **Redis over the wire.** For whatever programs the requests run, and however they interleave:
over connections that are idle between commands the server does what it does over the commands of
`Redis`, call by call and reply by reply, and the connections are idle again. -/
theorem redis_over_wire (hsha : Redis.Fits S.sha) (hscript : Redis.Fits S.script) {α : Type}
    {threads threads' : ℕ → Prog Api α} {t : List (Event Api Env)}
    (hsend : ∀ ev ∈ t, Sendable codec ev.env ev.cmd) (loaded : Bool) (db : Redis.DB) :
    Runs (Backend.redis codec create fetch).object ⟨Redis.empty, threads⟩ t ⟨db, threads'⟩ ↔
      ∃ loaded', Runs (wireObject codec create fetch S)
        ⟨Redis.Conn.idle ⟨Redis.empty, loaded⟩, threads⟩ t
        ⟨Redis.Conn.idle ⟨db, loaded'⟩, threads'⟩ := by
  have hinit : Carries (Redis.Conn.idle ⟨Redis.empty, loaded⟩) Redis.empty :=
    ⟨⟨loaded, rfl⟩, fun _ _ he => by cases he⟩
  constructor
  · intro hrun
    obtain ⟨c, hwire, ⟨loaded', rfl⟩, -⟩ := hrun.simulate
      (R := fun db c => Carries c db) (P := Sendable codec)
      (fun db c env cmd h hcmd => by
        obtain ⟨hreply, hcarries⟩ := h.step hsha hscript hcmd
        exact ⟨hreply.symm, hcarries⟩) hsend hinit
    exact ⟨loaded', hwire⟩
  · rintro ⟨loaded', hrun⟩
    obtain ⟨db', hdirect, ⟨loaded'', hidle⟩, -⟩ := hrun.simulate
      (R := Carries) (P := Sendable codec)
      (fun c db env cmd h hcmd => h.step hsha hscript hcmd) hsend hinit
    cases hidle
    exact hdirect

end Refinement

/-- The server with the limiter's script. -/
def scriptServer : Redis.Server where
  script := lit ("\nlocal count = redis.call(\"INCR\", KEYS[1])\nif count == 1 then\n" ++
    "  redis.call(\"EXPIRE\", KEYS[1], 3600)\nend\nreturn count\n")
  sha := lit "b172798021a745435e02cbe9a39d29642898eb5f"
  detail _ := []
  other _ _ s := ([], s)

/-- A key is created and fetched, and in between somebody asks for an id with a command in it. -/
def smugglers : ℕ → Prog Api Unit
  | 0 => .call (.allow .create (lit "203.0.113.7")) fun _ =>
    .call (.save (lit "key") Duration.second) fun _ => .done ()
  | 1 => .call (.load (lit "x\r\nFLUSHALL\r\n")) fun _ => .done ()
  | 2 => .call (.load (hexEncodeToString (List.replicate 16 0))) fun _ => .done ()
  | _ => .done ()

def smugglersEnv : Env := ⟨0, some (Vector.replicate 16 0), true⟩

/-- What comes of it. -/
def smugglersTrace : List (Event Api Env) :=
  [⟨0, smugglersEnv, .allow .create (lit "203.0.113.7"), true⟩,
    ⟨0, smugglersEnv, .save (lit "key") Duration.second,
      .ok (hexEncodeToString (List.replicate 16 0))⟩,
    ⟨1, smugglersEnv, .load (lit "x\r\nFLUSHALL\r\n"), .ok none⟩,
    ⟨2, smugglersEnv, .load (hexEncodeToString (List.replicate 16 0)), .ok (some (lit "key"))⟩]

theorem redis_over_wire_smugglers :
    ∃ codec loaded db threads, Runs (wireObject codec 10 60 scriptServer)
      ⟨Redis.Conn.idle ⟨Redis.empty, false⟩, smugglers⟩ smugglersTrace
      ⟨Redis.Conn.idle ⟨db, loaded⟩, threads⟩ := by
  let codec : RecordCodec := ⟨fun r => some r.privPEM, fun p => some ⟨p, 0⟩⟩
  have hrun := Pool.runs_run (Backend.redis codec 10 60).object ⟨Redis.empty, smugglers⟩
    [(0, smugglersEnv), (0, smugglersEnv), (1, smugglersEnv), (2, smugglersEnv)]
  have hsha : Redis.Fits scriptServer.sha := Redis.fits_of_length (by decide)
  have hscript : Redis.Fits scriptServer.script := Redis.fits_of_length (by decide +kernel)
  have hpayload : ∀ payload, codec.marshal ⟨lit "key", 0⟩ = some payload → Redis.Fits payload := by
    rintro _ ⟨⟩
    exact Redis.fits_of_length (by decide)
  have hsend : ∀ ev ∈ smugglersTrace, Sendable codec ev.env ev.cmd :=
    List.forall_mem_cons.mpr ⟨Redis.fits_of_length (by decide), List.forall_mem_cons.mpr ⟨hpayload,
      List.forall_mem_cons.mpr ⟨Redis.fits_of_length (by decide),
        List.forall_mem_singleton.mpr (Redis.fits_of_length (by decide))⟩⟩⟩
  obtain ⟨loaded, hwire⟩ := (redis_over_wire hsha hscript hsend false _).mp hrun
  exact ⟨codec, loaded, _, _, hwire⟩

end KeyBank
