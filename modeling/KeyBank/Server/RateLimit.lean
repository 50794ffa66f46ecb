import KeyBank.Server.Store

/-!
# The rate limiters

`redisRateLimiter` keeps one counter per bucket and client address in Redis, under the key
`rl:<bucket>:<ip>`; a script increments it and gives it a one-hour expiry on first use.
`noopRateLimiter` admits every request.
-/

namespace KeyBank

/-- The interface `handlers.RateLimiter`, over a state in `σ`. -/
structure RateLimiter (σ : Type) where
  allow : Env → GoString → σ → Bool × σ

/-- The key of a counter. -/
def counterKey (bucket ip : GoString) : GoString := lit "rl:" ++ bucket ++ lit ":" ++ ip

/-- `incrScript`. -/
def incrScript (now : ℤ) (key : GoString) (db : Redis.DB) : Except Redis.Error ℤ × Redis.DB :=
  match Redis.incr now key db with
  | (.error e, db) => (.error e, db)
  | (.ok count, db) =>
    if count = 1 then (.ok count, Redis.expire now key 3600 db) else (.ok count, db)

/-- `Script.Run`: one atomic execution, if Redis answers. -/
def runScript (env : Env) (key : GoString) (db : Redis.DB) : Except Redis.Error ℤ × Redis.DB :=
  if env.up then incrScript env.now key db else (.error .unreachable, db)

/-- What `Allow` makes of the script's result. An error blocks the request. -/
def verdict (limit : ℤ) : Except Redis.Error ℤ × Redis.DB → Bool × Redis.DB
  | (.error _, db) => (false, db)
  | (.ok count, db) => (count ≤ limit, db)

/-- `redisRateLimiter`. -/
def redisRateLimiter (bucket : GoString) (limit : ℤ) : RateLimiter Redis.DB where
  allow env ip db := verdict limit (runScript env (counterKey bucket ip) db)

/-- `noopRateLimiter`. -/
def noopRateLimiter {σ : Type} : RateLimiter σ where
  allow _ _ s := (true, s)

/-! ### Counter keys -/

/-- The two buckets `main` uses. -/
inductive Bucket where
  | create
  | fetch
  deriving DecidableEq, Repr

/-- The key prefix of a bucket. -/
def Bucket.name : Bucket → GoString
  | .create => lit "create"
  | .fetch => lit "fetch"

/-- The limit of a bucket. -/
def Bucket.limit (create fetch : ℤ) : Bucket → ℤ
  | .create => create
  | .fetch => fetch

/-- Distinct bucket and address pairs have distinct counters, whatever bytes the addresses
hold. -/
theorem counterKey_inj {b b' : Bucket} {ip ip' : GoString}
    (h : counterKey b.name ip = counterKey b'.name ip') : b = b' ∧ ip = ip' := by
  cases b <;> cases b' <;>
    simp [counterKey, Bucket.name, lit, String.utf8EncodeChar] at h <;> exact ⟨rfl, h⟩

/-- No record id is a counter key. -/
theorem IsID.ne_counterKey {x : GoString} (hx : IsID x) (bucket ip : GoString) :
    x ≠ counterKey bucket ip := by
  obtain ⟨b, rfl⟩ := hx
  intro h
  refine r_notMem_hexEncodeToString b.toList ?_
  rw [h]
  simp [counterKey, lit, String.utf8EncodeChar]

/-! ### What the limiters do -/

/-- **Inversion.** The script fails and changes nothing, opens a counter for an hour, or counts on
and keeps the expiry. -/
theorem incrScript_cases (now : ℤ) (key : GoString) (db : Redis.DB) :
    (∃ err, incrScript now key db = (.error err, db)) ∨
    incrScript now key db =
      (.ok 1, TTLMap.set db key ⟨decimalInt 1, some (now + 3600 * 1000000000)⟩) ∨
    ∃ e n, db.live now key = some e ∧ n ≠ 1 ∧
      incrScript now key db = (.ok n, TTLMap.set db key ⟨decimalInt n, e.expiry⟩) := by
  have hopen : ∀ expiry, TTLEntry.visible ⟨decimalInt 1, expiry⟩ now = true →
      Redis.expire now key 3600 (TTLMap.set db key ⟨decimalInt 1, expiry⟩) =
        TTLMap.set db key ⟨decimalInt 1, some (now + 3600 * 1000000000)⟩ := by
    intro expiry hvisible
    rw [Redis.expire, TTLMap.live_set_self, if_pos hvisible]
    exact Function.update_idem _ _ _
  rcases hlive : db.live now key with _ | e
  · refine .inr (.inl ?_)
    simp only [incrScript, Redis.incr, hlive, if_true, hopen none rfl]
  · rcases hparse : parseInt64 e.value with _ | n
    · exact .inl ⟨.notAnInteger, by simp only [incrScript, Redis.incr, hlive, hparse]⟩
    · by_cases hmax : n = Int64.maxValue.toInt
      · subst hmax
        exact .inl ⟨.overflow, by rw [incrScript, Redis.incr_overflow hlive hparse]⟩
      · rw [incrScript, Redis.incr_of_live hlive hparse hmax]
        by_cases hzero : n = 0
        · subst hzero
          exact .inr (.inl (by
            rw [← hopen e.expiry (TTLMap.live_eq_some_iff.mp hlive).2]
            rfl))
        · exact .inr (.inr ⟨e, n + 1, rfl, by omega, if_neg (by omega)⟩)

/-- The same of `Allow`, which also refuses when Redis does not answer. -/
theorem redisRateLimiter_allow_cases (bucket ip : GoString) (limit : ℤ) (env : Env)
    (db : Redis.DB) :
    (redisRateLimiter bucket limit).allow env ip db = (false, db) ∨
    (redisRateLimiter bucket limit).allow env ip db = (decide (1 ≤ limit),
      TTLMap.set db (counterKey bucket ip)
        ⟨decimalInt 1, some (env.now + 3600 * 1000000000)⟩) ∨
    ∃ e n, db.live env.now (counterKey bucket ip) = some e ∧ n ≠ 1 ∧
      (redisRateLimiter bucket limit).allow env ip db = (decide (n ≤ limit),
        TTLMap.set db (counterKey bucket ip) ⟨decimalInt n, e.expiry⟩) := by
  rw [redisRateLimiter]
  dsimp only
  rw [runScript]
  split
  · rcases incrScript_cases env.now (counterKey bucket ip) db with
      ⟨err, h⟩ | h | ⟨e, n, hlive, hn, h⟩
    · exact .inl (by rw [h, verdict])
    · exact .inr (.inl (by rw [h, verdict]))
    · exact .inr (.inr ⟨e, n, hlive, hn, by rw [h, verdict]⟩)
  · exact .inl rfl

/-- A limiter touches its own counter only. -/
theorem redisRateLimiter_allow_ne {bucket ip k : GoString} {limit : ℤ} {env : Env}
    {db : Redis.DB} (h : k ≠ counterKey bucket ip) :
    ((redisRateLimiter bucket limit).allow env ip db).2 k = db k := by
  rcases redisRateLimiter_allow_cases bucket ip limit env db with
    hallow | hallow | ⟨e, n, -, -, hallow⟩
  · rw [hallow]
  · rw [hallow]
    exact TTLMap.set_ne _ h
  · rw [hallow]
    exact TTLMap.set_ne _ h

end KeyBank
