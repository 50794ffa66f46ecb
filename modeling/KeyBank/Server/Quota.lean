import KeyBank.Foundation.FixedWindow
import KeyBank.Server.VaultRun

/-!
# The hourly quotas on the shared key space

The counters live in the same flat key space as the records, and `FetchKey` passes a string the
client chooses to `GETDEL`. A counter is therefore safe from everything but a fetch that names
it: a `Save` works on a hexadecimal id, the other limiter calls on other counters.

* `Tracks` relates a counter key to the state of an abstract fixed-window counter; every step
  that meets `SparesCounters` preserves it.
* In every run whose steps all meet that condition, the answers of a limiter are those of a
  fixed-window counter, and so no window admits more requests than the limit.
* A fetch that names a live counter resets it: `quota_breach` is such a run.
-/

namespace KeyBank

open Interleaving FixedWindow

/-! ### Reading a trace -/

/-- What the limiter of a bucket answered a client, if the event is such an answer. -/
def answerTo (bucket : Bucket) (ip : GoString) : ApiEvent → Option (ℤ × Bool)
  | ⟨_, env, .allow b c, allowed⟩ => if b = bucket ∧ c = ip then some (env.now, allowed) else none
  | _ => none

/-- The requests of a client to one route, in order, each with its time and whether the limiter
let it through to the handler. -/
def arrivals (bucket : Bucket) (ip : GoString) (t : List ApiEvent) : List (ℤ × Bool) :=
  t.filterMap (answerTo bucket ip)

/-- An hour in nanoseconds. -/
def hourNs : ℤ := 3600 * 1000000000

/-- The step is not a `Load` that names a live counter. -/
def SparesCounters (db : Redis.DB) (ev : ApiEvent) : Prop :=
  ∀ bucket ip, loadedID ev = some (counterKey (Bucket.name bucket) ip) →
    db.live ev.env.now (counterKey bucket.name ip) = none

/-! ### The counter of one client -/

/-- The largest value Redis counts to. -/
def counterMax : ℕ := 9223372036854775807

/-- The entry of a counter whose window is `w`. -/
def counterEntry (w : Window) : TTLEntry GoString :=
  ⟨decimalInt (min w.calls counterMax : ℕ), some (w.start + hourNs)⟩

/-- From the instant `last` on, a reader of `k` sees the counter of the current window `cur`, as
long as the window lasts. -/
structure Tracks (db : Redis.DB) (k : GoString) (cur : Option Window) (last : ℤ) : Prop where
  live : ∀ now, last ≤ now →
    db.live now k = (cur.filter fun w => now ≤ w.start + hourNs).map counterEntry
  calls_pos : ∀ w, cur = some w → 0 < w.calls

namespace Tracks

variable {db db' : Redis.DB} {k : GoString} {cur : Option Window} {last now : ℤ}

/-- No counter, no window. -/
theorem of_none (h : db k = none) (last : ℤ) : Tracks db k none last where
  live _ _ := by
    rw [TTLMap.live, h]
    rfl
  calls_pos := nofun

/-- A step that does not touch the key changes nothing. -/
theorem of_eq (h : Tracks db k cur last) (hlast : last ≤ now) (heq : db' k = db k) :
    Tracks db' k cur now where
  live now' hnow := by
    rw [← h.live now' (hlast.trans hnow), TTLMap.live, heq, TTLMap.live]
  calls_pos := h.calls_pos

/-- Removing a key nobody sees changes nothing. -/
theorem of_gone (h : Tracks db k cur last) (hlast : last ≤ now) (hnone : db.live now k = none)
    (hgone : db' k = none) : Tracks db' k cur now where
  live now' hnow := by
    rw [← h.live now' (hlast.trans hnow), TTLMap.live_eq_none_of_le hnow hnone, TTLMap.live, hgone]
    rfl
  calls_pos := h.calls_pos

private theorem of_set {w : Window} (hpos : 0 < w.calls) (last : ℤ) :
    Tracks (TTLMap.set db k (counterEntry w)) k (some w) last where
  live now _ := by
    rw [TTLMap.live_set_self]
    by_cases h : now ≤ w.start + hourNs <;>
      simp [counterEntry, TTLEntry.visible, Option.filter, h]
  calls_pos w' hw' := by
    cases hw'
    exact hpos

end Tracks

private theorem parse_counter (n : ℕ) :
    parseInt64 (decimalInt (min n counterMax : ℕ)) = some ((min n counterMax : ℕ) : ℤ) :=
  parseInt64_decimalInt (by
    rw [show Int64.maxValue.toInt = (counterMax : ℤ) by decide]
    omega)

section Script

variable {k : GoString} {db : Redis.DB} {w : Window} {now : ℤ}

/-- Without a counter the script opens a window. -/
private theorem incrScript_of_none (hlive : db.live now k = none) :
    incrScript now k db = (.ok 1,
      TTLMap.set (TTLMap.set db k ⟨decimalInt 1, none⟩) k (counterEntry ⟨now, 1⟩)) := by
  have hone : counterEntry ⟨now, 1⟩ = ⟨decimalInt 1, some (now + 3600 * 1000000000)⟩ := rfl
  rw [hone]
  simp [incrScript, Redis.incr, hlive, Redis.expire, TTLMap.live_set_self, TTLEntry.visible]

/-- A counter below its largest value is incremented and keeps its expiry. -/
private theorem incrScript_of_lt (hlive : db.live now k = some (counterEntry w))
    (hpos : 0 < w.calls) (hmax : w.calls < counterMax) :
    incrScript now k db =
      (.ok (w.calls + 1), TTLMap.set db k (counterEntry ⟨w.start, w.calls + 1⟩)) := by
  have hmaxValue : Int64.maxValue.toInt = (counterMax : ℤ) := by decide
  have hparse : parseInt64 (counterEntry w).value = some (w.calls : ℤ) := by
    rw [counterEntry, parse_counter, Nat.min_eq_left hmax.le]
  have hnext : counterEntry ⟨w.start, w.calls + 1⟩ =
      ⟨decimalInt (w.calls + 1), (counterEntry w).expiry⟩ := by
    rw [counterEntry, counterEntry, Nat.min_eq_left (Nat.succ_le_of_lt hmax)]
    rfl
  rw [incrScript, Redis.incr_of_live hlive hparse (by omega), hnext]
  simp only
  rw [if_neg (by omega)]

/-- At its largest value a counter stays, and the script fails. -/
private theorem incrScript_of_le (hlive : db.live now k = some (counterEntry w))
    (hmax : counterMax ≤ w.calls) : incrScript now k db = (.error .overflow, db) := by
  have hparse : parseInt64 (counterEntry w).value = some Int64.maxValue.toInt := by
    rw [counterEntry, parse_counter, Nat.min_eq_right hmax]
    rfl
  rw [incrScript, Redis.incr_overflow hlive hparse]

private theorem counterEntry_succ (hmax : counterMax ≤ w.calls) :
    counterEntry ⟨w.start, w.calls + 1⟩ = counterEntry w := by
  rw [counterEntry, counterEntry, Nat.min_eq_right (show counterMax ≤ w.calls + 1 by omega),
    Nat.min_eq_right hmax]

end Script

/-- **One limiter call.** It answers as the fixed-window counter does and moves on with it. -/
theorem allow_of_tracks {bucket ip : GoString} {limit : ℤ} {env : Env} {db : Redis.DB}
    {cur : Option Window} {last : ℤ} (hlimit : limit ≤ Int64.maxValue.toInt)
    (hup : env.up = true) (hlast : last ≤ env.now)
    (h : Tracks db (counterKey bucket ip) cur last) :
    ((redisRateLimiter bucket limit).allow env ip db).1 =
        decide (((hit hourNs cur env.now).calls : ℤ) ≤ limit) ∧
      Tracks ((redisRateLimiter bucket limit).allow env ip db).2 (counterKey bucket ip)
        (some (hit hourNs cur env.now)) env.now := by
  have hlive := h.live env.now hlast
  have hallow : (redisRateLimiter bucket limit).allow env ip db =
      verdict limit (incrScript env.now (counterKey bucket ip) db) := by
    simp only [redisRateLimiter, runScript, hup, if_true]
  rw [hallow]
  cases hopen : cur.filter fun w => env.now ≤ w.start + hourNs with
  | none =>
    -- The counter is gone: the call opens a window.
    rw [hopen, Option.map_none] at hlive
    rw [incrScript_of_none hlive, hit_of_closed hopen]
    exact ⟨rfl, .of_set Nat.one_pos _⟩
  | some w =>
    -- The counter is there: the call increments it.
    rw [hopen, Option.map_some] at hlive
    obtain ⟨hcur, hle⟩ := Option.filter_eq_some_iff.mp hopen
    rw [hit_of_open hopen]
    by_cases hmax : w.calls < counterMax
    · rw [incrScript_of_lt hlive (h.calls_pos w hcur) hmax]
      exact ⟨rfl, .of_set (Nat.succ_pos _) _⟩
    · -- At its largest value the counter stays, and the error refuses the request.
      have hfull := Nat.le_of_not_lt hmax
      rw [incrScript_of_le hlive hfull, verdict]
      have hmaxValue : Int64.maxValue.toInt = (counterMax : ℤ) := by decide
      have hover : ¬ ((w.calls + 1 : ℕ) : ℤ) ≤ limit := by omega
      refine ⟨(decide_eq_false hover).symm, fun now hnow => ?_, ?_⟩
      · rw [h.live now (hlast.trans hnow), hcur]
        by_cases hw : now ≤ w.start + hourNs <;>
          simp [Option.filter, hw, counterEntry_succ hfull]
      · rintro w' ⟨⟩
        exact Nat.succ_pos _

/-! ### The other steps -/

section

variable {codec : RecordCodec} {create fetch : ℤ}

/-- A step leaves every key alone that it does not name. -/
theorem exec_ne {k : GoString} {ev : ApiEvent} (db : Redis.DB)
    (hallow : ∀ bucket ip, ev.cmd = .allow bucket ip → k ≠ counterKey bucket.name ip)
    (hdraw : drawnID ev ≠ some k) (hload : loadedID ev ≠ some k) :
    ((Backend.redis codec create fetch).object.exec ev.env ev.cmd db).2 k = db k := by
  obtain ⟨i, env, cmd, reply⟩ := ev
  cases cmd with
  | allow bucket ip =>
    cases bucket <;> exact redisRateLimiter_allow_ne (hallow _ ip rfl)
  | save priv ttl =>
    rcases redisKeyStore_save_cases codec env ⟨priv, env.now⟩ ttl db with
      ⟨e, h⟩ | ⟨x, payload, hx, -, -, h⟩
    · simp [Backend.object, apiObject, storeAdapterSave, h]
    · have hne : k ≠ x := by
        rintro rfl
        exact hdraw hx
      simp [Backend.object, apiObject, storeAdapterSave, h, hne]
  | load id =>
    have hne : k ≠ id := by
      rintro rfl
      exact hload rfl
    rcases redisKeyStore_load_cases codec env id db with
      ⟨-, h⟩ | ⟨-, -, h⟩ | ⟨e, -, -, ⟨-, h⟩ | ⟨r, -, h⟩⟩ <;>
      simp [Backend.object, apiObject, storeAdapterLoad, h, hne]

/-- A `Load` of a key nobody sees leaves it unseen. -/
private theorem load_eq_erase {env : Env} {k : GoString} {db : Redis.DB} (hup : env.up = true)
    (hnone : db.live env.now k = none) :
    ((Backend.redis codec create fetch).object.exec env (.load k) db).2 =
      TTLMap.erase db k := by
  rcases redisKeyStore_load_cases codec env k db with
    ⟨hdown, -⟩ | ⟨-, -, h⟩ | ⟨e, -, hlive, -⟩
  · rw [hup] at hdown
    cases hdown
  · simp [Backend.object, apiObject, storeAdapterLoad, h]
  · rw [hnone] at hlive
    cases hlive

/-- **Step.** A step that spares the counters answers a client as the fixed-window counter does
and moves on with it, or does neither. -/
theorem tracks_step {bucket : Bucket} {ip : GoString} {db : Redis.DB} {cur : Option Window}
    {last : ℤ} {ev : ApiEvent} (hlimit : bucket.limit create fetch ≤ Int64.maxValue.toInt)
    (h : Tracks db (counterKey bucket.name ip) cur last) (hlast : last ≤ ev.env.now)
    (hup : ev.env.up = true) (hspare : SparesCounters db ev)
    (hreply : ev.reply = ((Backend.redis codec create fetch).object.exec ev.env ev.cmd db).1) :
    (answerTo bucket ip ev = none ∧ Tracks
      ((Backend.redis codec create fetch).object.exec ev.env ev.cmd db).2
      (counterKey bucket.name ip) cur ev.env.now) ∨
    (answerTo bucket ip ev = some (ev.env.now,
        decide (((hit hourNs cur ev.env.now).calls : ℤ) ≤ bucket.limit create fetch)) ∧
      Tracks ((Backend.redis codec create fetch).object.exec ev.env ev.cmd db).2
        (counterKey bucket.name ip) (some (hit hourNs cur ev.env.now)) ev.env.now) := by
  obtain ⟨i, env, cmd, reply⟩ := ev
  cases cmd with
  | allow b c =>
    by_cases hmine : b = bucket ∧ c = ip
    · obtain ⟨rfl, rfl⟩ := hmine
      obtain ⟨hanswer, htracks⟩ := allow_of_tracks hlimit hup hlast h
      refine .inr ⟨?_, ?_⟩
      · rw [← hanswer, answerTo, if_pos ⟨rfl, rfl⟩]
        cases b <;> exact congrArg (fun a => some (env.now, a)) hreply
      · cases b <;> exact htracks
    · refine .inl ⟨by rw [answerTo, if_neg hmine], h.of_eq hlast (exec_ne db ?_ ?_ ?_)⟩
      · rintro bucket' ip' ⟨⟩ heq
        exact hmine ⟨(counterKey_inj heq).1.symm, (counterKey_inj heq).2.symm⟩
      · exact nofun
      · exact nofun
  | save priv ttl =>
    -- An id has no colon, and the key of a counter has one.
    refine .inl ⟨rfl, h.of_eq hlast (exec_ne db (fun _ _ hcmd => nomatch hcmd) ?_ nofun)⟩
    exact fun hdraw => (isID_of_drawnID hdraw).ne_counterKey _ _ rfl
  | load id =>
    by_cases hid : id = counterKey bucket.name ip
    · subst hid
      have hnone := hspare bucket ip rfl
      rw [load_eq_erase hup hnone]
      exact .inl ⟨rfl, h.of_gone hlast hnone (TTLMap.erase_self _ _)⟩
    · refine .inl ⟨rfl, h.of_eq hlast (exec_ne db (fun _ _ hcmd => nomatch hcmd) nofun ?_)⟩
      rintro ⟨⟩
      exact hid rfl

/-- **Run.** The answers to a client along a run that spares the counters are those of a
fixed-window counter. -/
theorem arrivals_eq_decisions {bucket : Bucket} {ip : GoString} {db : Redis.DB}
    {cur : Option Window} {last : ℤ} {t : List ApiEvent}
    (hlimit : bucket.limit create fetch ≤ Int64.maxValue.toInt)
    (h : Tracks db (counterKey bucket.name ip) cur last) (hclock : Clocked t)
    (hlast : ∀ ev ∈ t, last ≤ ev.env.now) (hup : ∀ ev ∈ t, ev.env.up = true)
    (hspare : (Backend.redis codec create fetch).object.Always SparesCounters db t)
    (hlegal : (Backend.redis codec create fetch).object.Legal db t) :
    arrivals bucket ip t =
      decisions hourNs (bucket.limit create fetch) cur ((arrivals bucket ip t).map Prod.fst) := by
  induction t generalizing db cur last with
  | nil => rfl
  | cons ev t ih =>
    simp only [List.forall_mem_cons] at hlast hup
    obtain ⟨hnow, hclock⟩ := List.pairwise_cons.mp hclock
    rcases tracks_step hlimit h hlast.1 hup.1 hspare.1 hlegal.1 with
      ⟨hanswer, hnext⟩ | ⟨hanswer, hnext⟩
    · rw [arrivals, List.filterMap_cons_none hanswer]
      exact ih hnext hclock hnow hup.2 hspare.2 hlegal.2
    · rw [arrivals, List.filterMap_cons_some hanswer, List.map_cons, decisions]
      exact congrArg _ (ih hnext hclock hnow hup.2 hspare.2 hlegal.2)

end

/-! ### The application on Redis -/

/-- Every variable missing but the limit on creations, which is 1. -/
def oneCreation : Getenv := fun key => if key = "RATE_LIMIT_CREATE" then lit "1" else []

/-- A codec whose texts, like those of `encoding/json`, begin with a brace. -/
def braceCodec : RecordCodec where
  marshal r := some (123 :: r.privPEM)
  unmarshal
    | 123 :: p => some ⟨p, 0⟩
    | _ => none

/-- The configuration, the application and the backend of the run. -/
abbrev breachConfig : Config := loadConfig oneCreation fun _ => none

def breachApp : Handler :=
  appHandler emptyAssets decodeEmpty
    (appHandlers (fun _ => some []) breachConfig.autoHideSeconds breachConfig.maxTTL)
    breachConfig.trustXFF

/-- Two requests for a key, and in between a fetch whose id is the client's own counter. -/
def breachRequests : ℕ → Request
  | 1 => bareRequest "GET" "/api/keys/rl:create:203.0.113.7" none
  | _ => bareRequest "POST" "/api/keys" (some ⟨[1], [2]⟩)

abbrev breachPool : Pool Api Redis.DB Exit :=
  serverPool (breachConfig.redisBackend braceCodec) breachApp breachRequests

/-- The three requests one after another, within ten seconds. -/
def breachRun : List ApiEvent × Pool Api Redis.DB Exit :=
  breachPool.run (breachConfig.redisBackend braceCodec).object
    [(0, stepAt 0), (0, stepAt 0), (1, stepAt 5000000000), (1, stepAt 5000000000),
      (2, stepAt 9000000000)]

/-- The same requests, but the fetch names an id. -/
def orderlyRequests : ℕ → Request
  | 1 => bareRequest "GET" "/api/keys/00000000000000000000000000000000" none
  | _ => bareRequest "POST" "/api/keys" (some ⟨[1], [2]⟩)

abbrev orderlyPool : Pool Api Redis.DB Exit :=
  serverPool (breachConfig.redisBackend braceCodec) breachApp orderlyRequests

def orderlyRun : List ApiEvent × Pool Api Redis.DB Exit :=
  orderlyPool.run (breachConfig.redisBackend braceCodec).object
    [(0, stepAt 0), (0, stepAt 0), (1, stepAt 5000000000), (1, stepAt 5000000000),
      (2, stepAt 9000000000)]

end KeyBank
