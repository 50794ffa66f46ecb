import KeyBank.Server.Handlers

/-!
# Configuration

`loadConfig` reads the environment. A number that is missing, unreadable or not positive and a
duration that is missing, unreadable or under a minute are replaced by their defaults.
`time.ParseDuration` is a parameter. The port and the Redis address are not modelled: nothing
below depends on them.
-/

namespace KeyBank

/-- `os.Getenv`; a missing variable is the empty string. -/
abbrev Getenv : Type := String → GoString

/-- `Config`. -/
structure Config where
  storeBackend : GoString
  autoHideSeconds : ℤ
  rateLimitCreate : ℤ
  rateLimitFetch : ℤ
  maxTTL : Duration
  trustXFF : Bool

variable (getenv : Getenv) (parseDuration : GoString → Option Duration)

/-- `envInt`. -/
def envInt (key : String) (default : ℤ) : ℤ :=
  match atoi (getenv key) with
  | some n => if 0 < n then n else default
  | none => default

/-- `envString`. -/
def envString (key : String) (default : GoString) : GoString :=
  if getenv key ≠ [] then getenv key else default

/-- `envBool`. -/
def envBool (key : String) (default : Bool) : Bool :=
  if getenv key ≠ [] then
    getenv key = lit "1" || getenv key = lit "true" || getenv key = lit "True" ||
      getenv key = lit "TRUE"
  else default

/-- `envDuration`. -/
def envDuration (key : String) (default : Duration) : Duration :=
  if getenv key ≠ [] then
    match parseDuration (getenv key) with
    | some d => if d < 60 * Duration.second then default else d
    | none => default
  else default

/-- `loadConfig`. -/
def loadConfig : Config where
  storeBackend := envString getenv "KEYBANK_STORE" (lit "redis")
  autoHideSeconds := envInt getenv "AUTO_HIDE_SECONDS" 60
  rateLimitCreate := envInt getenv "RATE_LIMIT_CREATE" 30
  rateLimitFetch := envInt getenv "RATE_LIMIT_FETCH" 60
  maxTTL := envDuration getenv parseDuration "MAX_TTL" (7 * 24 * Duration.hour)
  trustXFF := envBool getenv "TRUST_XFF" false

/-- The backend `main` chooses by default: store and limiters on one Redis client. -/
abbrev Config.redisBackend (cfg : Config) (codec : RecordCodec) : Backend :=
  .redis codec cfg.rateLimitCreate cfg.rateLimitFetch

/-- The backend `main` chooses. -/
def Config.backend (cfg : Config) (codec : RecordCodec) : Backend :=
  if cfg.storeBackend = lit "mem" then .mem else cfg.redisBackend codec

/-- The limit `main` gives the limiter of a bucket. -/
abbrev Config.limit (cfg : Config) (bucket : Bucket) : ℤ :=
  bucket.limit cfg.rateLimitCreate cfg.rateLimitFetch

variable {getenv}

/-- A number from the environment is positive and fits in 64 bits. -/
theorem envInt_bounds {key : String} {default : ℤ} (h0 : 0 < default)
    (h1 : default ≤ Int64.maxValue.toInt) :
    0 < envInt getenv key default ∧ envInt getenv key default ≤ Int64.maxValue.toInt := by
  unfold envInt
  split
  · next n hn =>
    split
    · next hpos => exact ⟨hpos, le_of_atoi hn⟩
    · exact ⟨h0, h1⟩
  · exact ⟨h0, h1⟩

/-- Both limits `main` works with are positive and fit in 64 bits. -/
theorem loadConfig_limit (bucket : Bucket) :
    0 < (loadConfig getenv parseDuration).limit bucket ∧
      (loadConfig getenv parseDuration).limit bucket ≤ Int64.maxValue.toInt := by
  cases bucket <;> exact envInt_bounds (by decide) (by decide)

end KeyBank
