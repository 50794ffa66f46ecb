import KeyBank.Foundation.Interleaving
import KeyBank.Foundation.Utf8
import KeyBank.Server.Store

/-!
# The in-memory store refines the Redis store

Both stores are run on the same calls, with the same clock and the same draws, which may repeat.
They keep different states: the map retains an expired entry until somebody loads it, Redis removes
it when it comes across it. What a caller can still see is the same, though, at every instant from
now on, and this is the simulation relation (`Agree`). `memKeyStore_refines` concludes that the
replies are the same, call by call.
-/

namespace KeyBank

open Interleaving

/-! ### The two objects -/

/-- The calls of a `KeyStore`. -/
inductive StoreCall where
  | save (rec : Record) (ttl : Duration)
  | load (id : GoString)
  deriving DecidableEq

/-- What each call returns. -/
@[reducible] def StoreCall.Reply : StoreCall → Type
  | .save _ _ => Except StoreError GoString
  | .load _ => Except StoreError (Option Record)

/-- The calls with their results. -/
abbrev StoreApi : Interface := ⟨StoreCall, StoreCall.Reply⟩

/-- When a call is made. Before it takes effect, Redis comes across the keys `found`. -/
structure Moment extends Env where
  found : GoString → Bool

/-- `memKeyStore` as an object. -/
def memObject : Object StoreApi Moment MemData where
  exec m
    | .save rec ttl, data => memKeyStore.save m.toEnv rec ttl data
    | .load id, data => memKeyStore.load m.toEnv id data

/-- `redisKeyStore` as an object. -/
def redisObject (codec : RecordCodec) : Object StoreApi Moment Redis.DB where
  exec m
    | .save rec ttl, db =>
      (redisKeyStore codec).save m.toEnv rec ttl (Redis.evict m.now m.found db)
    | .load id, db => (redisKeyStore codec).load m.toEnv id (Redis.evict m.now m.found db)

/-! ### The calls compared -/

/-- The beginning of the year 0 and of the year 10000 in UTC, in nanoseconds on the Unix clock. -/
def yearZero : ℤ := -62167219200 * 1000000000

def yearTenThousand : ℤ := 253402300800 * 1000000000

/-- A record whose JSON text holds all of it: the key is valid UTF-8, the year has four digits. -/
structure Record.Representable (r : Record) : Prop where
  utf8 : ∃ cs, r.privPEM = Utf8.encode cs
  year : yearZero ≤ r.createdAt ∧ r.createdAt < yearTenThousand

/-- `json.Unmarshal` undoes `json.Marshal` on a record. -/
def RecordCodec.RoundTrips (codec : RecordCodec) (r : Record) : Prop :=
  ∃ payload, codec.marshal r = some payload ∧ codec.unmarshal payload = some r

/-- The calls come in the order of time, Redis answers, and what is saved is representable and
lives for a positive whole number of milliseconds. -/
structure Admissible (l : List (Moment × StoreCall)) : Prop where
  clocked : l.Pairwise fun a b => a.1.now ≤ b.1.now
  up : ∀ c ∈ l, c.1.up = true
  representable : ∀ c ∈ l, ∀ rec ttl, c.2 = .save rec ttl → rec.Representable
  lifetime : ∀ c ∈ l, ∀ rec ttl, c.2 = .save rec ttl → 0 < ttl ∧ ttl.toInt % 1000000 = 0

theorem Admissible.tail {c : Moment × StoreCall} {l : List (Moment × StoreCall)}
    (h : Admissible (c :: l)) : Admissible l where
  clocked := (List.pairwise_cons.mp h.clocked).2
  up c' hc' := h.up c' (List.mem_cons_of_mem _ hc')
  representable c' hc' := h.representable c' (List.mem_cons_of_mem _ hc')
  lifetime c' hc' := h.lifetime c' (List.mem_cons_of_mem _ hc')

/-! ### The simulation -/

/-- What is visible in both stores: nothing, or a record and its JSON text with one expiry. -/
inductive SameEntry (codec : RecordCodec) :
    Option (TTLEntry Record) → Option (TTLEntry GoString) → Prop
  | none : SameEntry codec none none
  | some {rec : Record} {payload : GoString} {expiry : Option ℤ}
      (hpayload : codec.unmarshal payload = some rec) :
      SameEntry codec (some ⟨rec, expiry⟩) (some ⟨payload, expiry⟩)

/-- At the instants of the calls to come, the same is visible in both stores. -/
def Agree (codec : RecordCodec) (data : MemData) (db : Redis.DB)
    (l : List (Moment × StoreCall)) : Prop :=
  ∀ c ∈ l, ∀ id, SameEntry codec (data.view.live c.1.now id) (db.live c.1.now id)

variable {codec : RecordCodec} {data data' : MemData} {db db' : Redis.DB}
  {l : List (Moment × StoreCall)}

/-- The stores still agree after the same entry has been set in both. -/
theorem Agree.set (h : Agree codec data db l) {id payload : GoString} {rec : Record}
    {expiry : Option ℤ} (hpayload : codec.unmarshal payload = some rec)
    (hdata : data'.view = TTLMap.set data.view id ⟨rec, expiry⟩)
    (hdb : db' = TTLMap.set db id ⟨payload, expiry⟩) : Agree codec data' db' l := by
  intro c hc k
  rw [hdata, hdb]
  by_cases hk : k = id
  · subst hk
    rw [TTLMap.live_set_self, TTLMap.live_set_self]
    have hvisible : TTLEntry.visible ⟨rec, expiry⟩ c.1.now =
        TTLEntry.visible ⟨payload, expiry⟩ c.1.now := rfl
    rw [hvisible]
    split
    · exact .some hpayload
    · exact .none
  · rw [TTLMap.live_set_ne _ _ hk, TTLMap.live_set_ne _ _ hk]
    exact h c hc k

/-- And after the same id has been removed from both. -/
theorem Agree.erase (h : Agree codec data db l) {id : GoString}
    (hdata : data'.view = TTLMap.erase data.view id) (hdb : db' = TTLMap.erase db id) :
    Agree codec data' db' l := by
  intro c hc k
  rw [hdata, hdb]
  by_cases hk : k = id
  · subst hk
    rw [TTLMap.live_erase_self, TTLMap.live_erase_self]
    exact .none
  · rw [TTLMap.live_erase_ne _ hk, TTLMap.live_erase_ne _ hk]
    exact h c hc k

/-- What Redis removes by itself is not missed. -/
theorem Agree.evict (h : Agree codec data db l) {now : ℤ} (hnow : ∀ c ∈ l, now ≤ c.1.now)
    (found : GoString → Bool) : Agree codec data (Redis.evict now found db) l := by
  intro c hc k
  rw [Redis.live_evict (hnow c hc)]
  exact h c hc k

/-- **One `Save`** gives the same result in both stores, which agree afterwards. -/
theorem Agree.save {m : Moment} {rec : Record} {ttl : Duration} (h : Agree codec data db l)
    (hup : m.up = true) (hcodec : codec.RoundTrips rec) (hpos : 0 < ttl)
    (hwhole : ttl.toInt % 1000000 = 0) :
    (memKeyStore.save m.toEnv rec ttl data).1 = ((redisKeyStore codec).save m.toEnv rec ttl db).1 ∧
      Agree codec (memKeyStore.save m.toEnv rec ttl data).2
        ((redisKeyStore codec).save m.toEnv rec ttl db).2 l := by
  obtain ⟨payload, hmarshal, hunmarshal⟩ := hcodec
  rcases memKeyStore_save_cases m.toEnv rec ttl data with ⟨hid, hmem⟩ | ⟨id, data', hid, hmem, hview⟩
  · have hredis : (redisKeyStore codec).save m.toEnv rec ttl db = (.error .random, db) := by
      simp only [redisKeyStore, hid]
    rw [hmem, hredis]
    exact ⟨rfl, h⟩
  · have hredis : (redisKeyStore codec).save m.toEnv rec ttl db =
        (.ok id, TTLMap.set db id ⟨payload, some (timeAdd m.now ttl)⟩) := by
      simp only [redisKeyStore, hid, hmarshal, Redis.set, hup, if_true,
        Redis.setExpiry_of_pos hpos, Redis.expireAfter_of_whole hpos hwhole, timeAdd]
    rw [hmem, hredis]
    exact ⟨rfl, h.set hunmarshal hview rfl⟩

/-- **One `Load`** gives the same result in both stores, which agree afterwards. -/
theorem Agree.load {m : Moment} {id : GoString} (h : Agree codec data db l) (hup : m.up = true)
    (hnow : SameEntry codec (data.view.live m.now id) (db.live m.now id)) :
    (memKeyStore.load m.toEnv id data).1 = ((redisKeyStore codec).load m.toEnv id db).1 ∧
      Agree codec (memKeyStore.load m.toEnv id data).2
        ((redisKeyStore codec).load m.toEnv id db).2 l := by
  obtain ⟨data', hmem, hview⟩ := memKeyStore_load_cases m.toEnv id data
  have hredis : (redisKeyStore codec).load m.toEnv id db =
      (.ok ((data.view.live m.now id).map fun e => e.value), TTLMap.erase db id) := by
    generalize data.view.live m.now id = e at hnow
    generalize hlive : db.live m.now id = e' at hnow
    cases hnow with
    | none => simp [redisKeyStore, Redis.getDel, hup, hlive]
    | some hpayload => simp [redisKeyStore, Redis.getDel, hup, hlive, hpayload]
  rw [hmem, hredis]
  exact ⟨rfl, h.erase hview rfl⟩

/-- **Refinement.** On calls in the order of time, with positive lifetimes of whole milliseconds
and records that JSON can represent, the two stores return the same results, call by call,
whatever is drawn and whenever Redis removes what has expired. -/
theorem memKeyStore_refines {codec : RecordCodec} {l : List (Moment × StoreCall)}
    (hcodec : ∀ c ∈ l, ∀ rec ttl, c.2 = .save rec ttl → rec.Representable →
      codec.RoundTrips rec) (hl : Admissible l) :
    memObject.answers newMemKeyStore l = (redisObject codec).answers Redis.empty l := by
  let R (data : MemData) (db : Redis.DB) (l : List (Moment × StoreCall)) : Prop :=
    (∀ c ∈ l, ∀ rec ttl, c.2 = .save rec ttl → rec.Representable → codec.RoundTrips rec) ∧
      Admissible l ∧ Agree codec data db l
  have hstep : ∀ data db m c l, R data db ((m, c) :: l) →
      (memObject.exec m c data).1 = ((redisObject codec).exec m c db).1 ∧
        R (memObject.exec m c data).2 ((redisObject codec).exec m c db).2 l := by
    rintro data db m c l ⟨hcodec, hl, hagree⟩
    have hup := hl.up (m, c) List.mem_cons_self
    have hevict : Agree codec data (Redis.evict m.now m.found db) ((m, c) :: l) :=
      hagree.evict (List.forall_mem_cons.mpr ⟨Int.le_refl _, (List.pairwise_cons.mp hl.clocked).1⟩) _
    have hrest : Agree codec data (Redis.evict m.now m.found db) l := fun c' hc' =>
      hevict c' (List.mem_cons_of_mem _ hc')
    have hcodec' := fun c' hc' => hcodec c' (List.mem_cons_of_mem _ hc')
    rcases c with ⟨rec, ttl⟩ | id
    · have hrec := hcodec (m, .save rec ttl) List.mem_cons_self rec ttl rfl
        (hl.representable (m, .save rec ttl) List.mem_cons_self rec ttl rfl)
      obtain ⟨hpos, hwhole⟩ := hl.lifetime (m, .save rec ttl) List.mem_cons_self rec ttl rfl
      obtain ⟨hreply, hnext⟩ := hrest.save hup hrec hpos hwhole
      exact ⟨hreply, hcodec', hl.tail, hnext⟩
    · obtain ⟨hreply, hnext⟩ := hrest.load hup (hevict (m, .load id) List.mem_cons_self id)
      exact ⟨hreply, hcodec', hl.tail, hnext⟩
  exact Object.answers_eq_of_simulation hstep ⟨hcodec, hl, fun c _ id => .none⟩

/-! ### A draw that repeats -/

/-- A record of the first second of 1970, with the JSON text `encoding/json` gives it. -/
def epochRecord (key : String) (seconds : ℕ) : Record :=
  ⟨lit key, seconds * 1000000000⟩

def epochText (key : String) (seconds : ℕ) : GoString :=
  lit ("\x7b\"priv_pem\":\"" ++ key ++ "\",\"created_at\":\"1970-01-01T00:00:0" ++
    toString seconds ++ "Z\"\x7d")

/-- `encoding/json` on two of these. -/
def epochCodec : RecordCodec where
  marshal r :=
    if r = epochRecord "a" 0 then some (epochText "a" 0)
    else if r = epochRecord "b" 1 then some (epochText "b" 1)
    else none
  unmarshal text :=
    if text = epochText "a" 0 then some (epochRecord "a" 0)
    else if text = epochText "b" 1 then some (epochRecord "b" 1)
    else none

/-- At a number of milliseconds, with a draw of sixteen zero bytes. -/
def momentAt (millis : ℤ) : Moment :=
  ⟨⟨millis * 1000000, some (Vector.replicate 16 0), true⟩, fun _ => true⟩

/-- The second `Save` draws the id of the first; the `Load` at the instant of expiry still finds
its record, and the next one finds nothing. -/
def repeatedDraw : List (Moment × StoreCall) :=
  [(momentAt 0, .save (epochRecord "a" 0) (5 * Duration.second)),
    (momentAt 1000, .save (epochRecord "b" 1) (10 * Duration.millisecond)),
    (momentAt 1010, .load (List.replicate 32 48)),
    (momentAt 1010, .load (List.replicate 32 48)),
    (momentAt 9000, .load (lit "unknown"))]

theorem memKeyStore_refines_repeatedDraw :
    memObject.answers newMemKeyStore repeatedDraw =
      (redisObject epochCodec).answers Redis.empty repeatedDraw := by
  have hsaved : ∀ c ∈ repeatedDraw, ∀ rec ttl, c.2 = .save rec ttl →
      (rec = epochRecord "a" 0 ∨ rec = epochRecord "b" 1) ∧ 0 < ttl ∧
        ttl.toInt % 1000000 = 0 := by
    intro c hc rec ttl hsave
    simp only [repeatedDraw, List.mem_cons, List.not_mem_nil, or_false] at hc
    rcases hc with rfl | rfl | rfl | rfl | rfl
    · obtain ⟨rfl, rfl⟩ := StoreCall.save.inj hsave
      exact ⟨.inl rfl, by decide⟩
    · obtain ⟨rfl, rfl⟩ := StoreCall.save.inj hsave
      exact ⟨.inr rfl, by decide⟩
    all_goals exact absurd hsave nofun
  refine memKeyStore_refines (fun c hc rec ttl hsave _ => ?_) ⟨?_, ?_, fun c hc rec ttl hsave => ?_,
    fun c hc rec ttl hsave => (hsaved c hc rec ttl hsave).2⟩
  · rcases (hsaved c hc rec ttl hsave).1 with rfl | rfl
    · exact ⟨epochText "a" 0, by decide +kernel⟩
    · exact ⟨epochText "b" 1, by decide +kernel⟩
  · simp [repeatedDraw, momentAt]
  · simp [repeatedDraw, momentAt]
  · rcases (hsaved c hc rec ttl hsave).1 with rfl | rfl
    · exact ⟨⟨['a'], by decide⟩, by decide⟩
    · exact ⟨⟨['b'], by decide⟩, by decide⟩

end KeyBank
